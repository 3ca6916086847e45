import CompactWire.Pool
import CompactWire.Proofs.Outcome

/-!
# CompactWire.Proofs.Lending — what a pool lends

`Pool.Sound` says that the storage in the slots of a class has the size of the class; what the storage holds does not
matter.  It holds of a new pool, and lending and taking back keep it (`sound_new`, `lent_alloc`, `sound_release`), so it
holds however a pool was used (`Reached.sound`).  A sound pool lends buffers with nothing ready and with room for what
was asked for.

A buffer that goes back to a class has to have the size of that class (`Buffer.Homed`).  No call on a buffer changes its
capacity.

Of the counters, `loans` and `outstanding` go up by one with every loan, of whatever class, and `outstanding` alone goes
down when a buffer comes back.
-/

namespace CompactWire

/-! ### Buffers -/

namespace Buffer

theorem size_drop (n : Nat) (r : Region) : (r.drop n).size = r.size - n := by
  rw [← Region.length_toList, Region.toList_drop, List.length_drop, Region.length_toList]

theorem size_overwrite (bytes : Bytes) (r : Region) : (r.overwrite bytes).size = r.size := by
  rw [← Region.length_toList, Region.toList_overwrite, List.length_append, List.length_take, List.length_drop,
    Region.length_toList]
  omega

theorem size_storage (b : Buffer) : b.storage.size = b.capacity := by
  simp only [storage, capacity, filled, cursor, room, Region.size, List.length_append, List.length_reverse]
  omega

theorem capacity_skip (n : Nat) (b : Buffer) : (b.skip n).capacity = b.capacity := by
  simp only [skip, capacity, filled, cursor, room, List.length_append, List.length_reverse, List.length_take,
    List.length_drop]
  omega

/-- The storage fits into the class that it goes back to. -/
def Homed (c : Pool.Config) (b : Buffer) : Prop := ∀ i, b.sizeClass = some i → b.capacity = c.classSize i

theorem Homed.of_capacity {c : Pool.Config} {b b' : Buffer} (h : b.Homed c) (hclass : b'.sizeClass = b.sizeClass)
    (hcap : b'.capacity = b.capacity) : b'.Homed c := fun i hi => by
  rw [hcap]
  exact h i (hclass ▸ hi)

/-- `b'` is `b` with some bytes more, which took as much of its room. -/
structure Appended (bytes : Bytes) (b b' : Buffer) : Prop where
  ready : b'.ready = b.ready ++ bytes
  room : b'.room + bytes.length = b.room
  taken : b'.taken = b.taken
  sizeClass : b'.sizeClass = b.sizeClass

theorem Appended.homed {c : Pool.Config} {bytes : Bytes} {b b' : Buffer} (h : Appended bytes b b') (hb : b.Homed c) :
    b'.Homed c := by
  refine hb.of_capacity h.sizeClass ?_
  have hroom := h.room
  simp only [capacity, filled, cursor, h.taken, h.ready, List.length_append]
  omega

/-- Bytes for which there is room are appended whole. -/
theorem exists_put {b : Buffer} {bytes : Bytes} (h : bytes.length ≤ b.room) :
    ∃ b', b.put bytes = (bytes.length, b') ∧ Appended bytes b b' := by
  have hroom : (b.spare.drop bytes.length).size + bytes.length = b.room := by
    rw [size_drop]
    exact Nat.sub_add_cancel h
  refine ⟨{ b with ready := b.ready ++ bytes, spare := b.spare.drop bytes.length }, ?_, rfl, hroom, rfl, rfl⟩
  unfold put
  dsimp only
  rw [Nat.min_eq_left h, List.take_length]

/-- What is written first and published then is as if it were appended. -/
theorem exists_commit_write {b : Buffer} {bytes : Bytes} (h : bytes.length ≤ b.room) :
    ∃ b', (b.write bytes).commit bytes.length = .ok b' ∧ Appended bytes b b' := by
  have htake : (b.spare.overwrite bytes).take bytes.length = bytes := by
    have hall : bytes.take b.spare.size = bytes := List.take_of_length_le h
    rw [Region.take_eq, Region.toList_overwrite, hall, List.take_left]
  have hroom : ((b.spare.overwrite bytes).drop bytes.length).size + bytes.length = b.room := by
    rw [size_drop, size_overwrite]
    exact Nat.sub_add_cancel h
  have hfits : ¬(b.write bytes).room < bytes.length := by
    show ¬(b.spare.overwrite bytes).size < bytes.length
    rw [size_overwrite]
    exact Nat.not_lt.2 h
  refine ⟨{ b with ready := b.ready ++ bytes, spare := (b.spare.overwrite bytes).drop bytes.length }, ?_, rfl, hroom,
    rfl, rfl⟩
  unfold commit
  rw [if_neg hfits]
  unfold write
  rw [htake]

end Buffer

/-! ### Pools -/

namespace Pool

/-- The storage in the slots of a class has the given size. -/
structure SizeClass.Sound (size : Nat) (s : SizeClass) : Prop where
  size_eq : s.size = size
  slots : ∀ storage, some storage ∈ s.slots → storage.size = size

/-- The storage in the slots of every class has the size of the class. -/
def Sound (p : Pool) : Prop := ∀ (i : Nat) (s : SizeClass), p.classes[i]? = some s → s.Sound (p.config.classSize i)

variable {p : Pool} {c : Config} {size : Nat}

theorem Config.ceilLog2_le_iff {n k : Nat} : ceilLog2 n ≤ k ↔ n ≤ 1 <<< k := by
  rw [Nat.one_shiftLeft]
  unfold ceilLog2
  have hpos : 0 < 2 ^ k := Nat.two_pow_pos k
  split
  · omega
  · have hlog : (n - 1).log2 < k ↔ n - 1 < 2 ^ k := Nat.log2_lt (by omega)
    omega

theorem Config.le_classSize_iff {n i : Nat} : n ≤ c.classSize i ↔ ceilLog2 n - c.minExp ≤ i := by
  rw [classSize, ← ceilLog2_le_iff]
  omega

/-- The class of a request holds it. -/
theorem Config.le_classSize {n i : Nat} (h : c.classIndex? n = some i) : n ≤ c.classSize i := by
  unfold classIndex? at h
  split at h
  · cases h
  · cases h
    exact le_classSize_iff.2 (Nat.le_refl _)

/-- No class of a request is above the greatest. -/
theorem Config.classSize_le {n i : Nat} (h : c.classIndex? n = some i) : n ≤ c.maxSize ∧ c.classSize i ≤ c.maxSize := by
  unfold classIndex? at h
  split at h
  · cases h
  · rename_i hmax
    cases h
    have hexp := ceilLog2_le_iff.2 (Nat.not_lt.1 hmax)
    have hle := c.minExp_le_maxExp
    refine ⟨Nat.not_lt.1 hmax, ?_⟩
    unfold classSize maxSize
    rw [Nat.one_shiftLeft, Nat.one_shiftLeft]
    exact Nat.pow_le_pow_right (by decide) (by omega)

theorem Config.minSize_le (c : Config) : c.minSize ≤ c.maxSize := by
  unfold minSize classSize maxSize
  rw [Nat.one_shiftLeft, Nat.one_shiftLeft]
  exact Nat.pow_le_pow_right (by decide) c.minExp_le_maxExp

theorem sound_new (c : Config) : (new c).Sound := by
  intro i s hs
  obtain ⟨j, hj, rfl⟩ : ∃ j, (List.range c.numClasses)[i]? = some j ∧ SizeClass.new c j = s := by
    simpa [new] using hs
  obtain ⟨-, rfl⟩ := List.getElem?_eq_some_iff.1 hj
  rw [List.getElem_range]
  refine ⟨rfl, fun storage h => ?_⟩
  have h := List.eq_of_mem_replicate h
  split at h
  · cases h
    exact Nat.zero_add _
  · cases h

theorem SizeClass.sound_take {s : SizeClass} (h : s.Sound size) :
    s.take.2.Sound size ∧ ∀ storage, s.take.1 = some storage → storage.size = size := by
  unfold take
  split
  · exact ⟨⟨h.size_eq, h.slots⟩, fun _ h => by cases h⟩
  · rename_i slot slots hslots
    have hrest : ∀ storage, some storage ∈ slots → storage.size = size := fun storage hm =>
      h.slots storage (by rw [hslots]; exact List.mem_cons_of_mem _ hm)
    split
    · rename_i storage
      refine ⟨⟨h.size_eq, hrest⟩, fun _ heq => ?_⟩
      cases heq
      exact h.slots storage (by rw [hslots]; exact List.mem_cons_self)
    · refine ⟨⟨h.size_eq, hrest⟩, fun _ heq => ?_⟩
      cases heq
      exact (Nat.zero_add _).trans h.size_eq

theorem SizeClass.sound_restore {s : SizeClass} {storage : Region} (perClass : Nat) (h : s.Sound size)
    (hs : storage.size = size) : (s.restore perClass storage).Sound size := by
  unfold restore
  dsimp only
  split
  · refine ⟨h.size_eq, fun storage' hm => ?_⟩
    rcases List.mem_append.1 hm with hm | hm
    · exact h.slots storage' hm
    · cases List.mem_singleton.1 hm
      exact hs
  · exact ⟨h.size_eq, h.slots⟩

theorem sound_set {i : Nat} {s : SizeClass} (h : p.Sound) (hs : s.Sound (p.config.classSize i)) :
    Sound { p with classes := p.classes.set i s } := by
  intro j t ht
  have ht : (p.classes.set i s)[j]? = some t := ht
  rw [List.getElem?_set] at ht
  split at ht
  · rename_i hij
    split at ht
    · cases ht
      exact hij ▸ hs
    · cases ht
  · exact h j t ht

/-- What a pool with configuration `c` lends for a request. -/
structure Lent (c : Config) (capacity : Nat) (b : Buffer) (p : Pool) : Prop where
  ready : b.ready = []
  room : capacity ≤ b.room
  homed : b.Homed c
  sound : p.Sound
  config : p.config = c

/-- What is appended to a loan is all that it holds. -/
theorem Lent.appended {n : Nat} {b b' : Buffer} {bytes : Bytes} (h : Lent c n b p) (hb : Buffer.Appended bytes b b') :
    b'.ready = bytes ∧ b'.Homed c := by
  refine ⟨?_, hb.homed h.homed⟩
  rw [hb.ready, h.ready, List.nil_append]

/-- Bytes that were asked for are put into a loan whole. -/
theorem Lent.put {n : Nat} {b : Buffer} {bytes : Bytes} (h : Lent c n b p) (hn : bytes.length ≤ n) :
    ∃ b', b.put bytes = (bytes.length, b') ∧ b'.ready = bytes ∧ b'.Homed c := by
  obtain ⟨b', hput, happended⟩ := Buffer.exists_put (Nat.le_trans hn h.room)
  exact ⟨b', hput, h.appended happended⟩

theorem Lent.commit {n : Nat} {b : Buffer} {bytes : Bytes} (h : Lent c n b p) (hn : bytes.length ≤ n) :
    ∃ b', (b.write bytes).commit bytes.length = .ok b' ∧ b'.ready = bytes ∧ b'.Homed c := by
  obtain ⟨b', hcommit, happended⟩ := Buffer.exists_commit_write (Nat.le_trans hn h.room)
  exact ⟨b', hcommit, h.appended happended⟩

theorem lent_tryAlloc (h : p.Sound) (capacity : Nat) :
    match tryAlloc capacity p with
    | .ok b p' => Lent p.config capacity b p'
    | .error _ p' => p'.Sound ∧ p'.config = p.config := by
  unfold tryAlloc
  split <;> rename_i heq
  · split at heq
    · cases heq
    · rename_i i hi
      split at heq
      · rename_i storage s hs
        cases heq
        obtain ⟨t, ht, htake⟩ := Option.map_eq_some_iff.1 hs
        have hsound := SizeClass.sound_take (h i t ht)
        rw [htake] at hsound
        have hsize := hsound.2 storage rfl
        refine ⟨rfl, ?_, fun j hj => ?_, sound_set h hsound.1, rfl⟩
        · exact Nat.le_trans (Config.le_classSize hi) (Nat.le_of_eq hsize.symm)
        · cases hj
          exact (Nat.zero_add _).trans hsize
      · cases heq
      · cases heq
  · split at heq
    · cases heq
      exact ⟨h, rfl⟩
    · rename_i i hi
      split at heq
      · cases heq
      · rename_i s hs
        cases heq
        obtain ⟨t, ht, htake⟩ := Option.map_eq_some_iff.1 hs
        have hsound := SizeClass.sound_take (h i t ht)
        rw [htake] at hsound
        exact ⟨sound_set h hsound.1, rfl⟩
      · cases heq
        exact ⟨h, rfl⟩

/-- A sound pool lends what was asked for, and stays sound. -/
theorem lent_alloc (h : p.Sound) (capacity : Nat) :
    Lent p.config capacity (p.alloc capacity).1 (p.alloc capacity).2 := by
  have hlent := lent_tryAlloc h capacity
  unfold alloc
  cases htry : tryAlloc capacity p with
  | ok b p' =>
    rw [htry] at hlent
    exact hlent
  | error e p' =>
    rw [htry] at hlent
    refine ⟨rfl, ?_, fun i hi => (by cases hi), hlent.1, hlent.2⟩
    exact Nat.le_trans (Nat.le_max_left _ _) (Nat.le_of_eq (Nat.zero_add _).symm)

/-- Where there can be storage of all sizes of a pool, it only has to make more than there can be if it is asked for. -/
theorem lt_made_iff (h : p.Sound) (hmax : p.config.maxSize ≤ Region.maxSize) {capacity : Nat} :
    Region.maxSize < p.made capacity ↔ Region.maxSize < capacity := by
  have hmin := p.config.minSize_le
  unfold made
  cases hclass : p.config.classIndex? capacity with
  | none =>
    show Region.maxSize < max capacity p.config.minSize ↔ _
    omega
  | some i =>
    obtain ⟨hle, hsize⟩ := Config.classSize_le hclass
    have hsmall : ¬Region.maxSize < capacity := by omega
    refine iff_of_false ?_ hsmall
    rw [Option.bind_some]
    cases hs : p.classes[i]? with
    | none =>
      show ¬Region.maxSize < max capacity p.config.minSize
      omega
    | some s =>
      have heq := (h i s hs).size_eq
      dsimp only
      split <;> omega

/-- A pool that takes back a buffer of its own stays sound. -/
theorem sound_release {b : Buffer} (h : p.Sound) (hb : b.Homed p.config) :
    (p.release b).Sound ∧ (p.release b).config = p.config := by
  unfold release
  cases hc : b.sizeClass with
  | none => exact ⟨h, rfl⟩
  | some i =>
    refine ⟨fun j t ht => ?_, rfl⟩
    have ht : (p.classes.modify i (SizeClass.restore p.config.perClass b.storage))[j]? = some t := ht
    rw [List.getElem?_modify] at ht
    obtain ⟨s, hs, rfl⟩ := Option.map_eq_some_iff.1 ht
    show SizeClass.Sound (p.config.classSize j) (if i = j then SizeClass.restore p.config.perClass b.storage s else s)
    by_cases hij : i = j
    · subst hij
      rw [if_pos rfl]
      exact SizeClass.sound_restore _ (h i s hs) ((Buffer.size_storage b).trans (hb i hc))
    · rw [if_neg hij]
      exact h j s hs

/-! ### What a pool counts -/

theorem counts_tryAlloc (p : Pool) (n : Nat) :
    Outcome.Ends (fun _ p' => p'.loans = p.loans + 1 ∧ p'.outstanding = p.outstanding + 1)
      (fun p' => p'.loans = p.loans ∧ p'.outstanding = p.outstanding) (tryAlloc n p) := by
  unfold tryAlloc
  cases p.config.classIndex? n with
  | none => exact ⟨rfl, rfl⟩
  | some i =>
    dsimp only
    generalize p.classes[i]?.map SizeClass.take = taken
    match taken with
    | none => exact ⟨rfl, rfl⟩
    | some (none, s) => exact ⟨rfl, rfl⟩
    | some (some storage, s) => exact ⟨rfl, rfl⟩

theorem counts_alloc (p : Pool) (n : Nat) :
    (p.alloc n).2.loans = p.loans + 1 ∧ (p.alloc n).2.outstanding = p.outstanding + 1 := by
  have htry := p.counts_tryAlloc n
  unfold alloc
  cases h : tryAlloc n p with
  | ok b p' =>
    rw [h] at htry
    exact htry
  | error e p' =>
    rw [h] at htry
    obtain ⟨hloans, houtstanding⟩ := htry
    exact ⟨congrArg (· + 1) hloans, congrArg (· + 1) houtstanding⟩

theorem loans_release (p : Pool) (b : Buffer) : (p.release b).loans = p.loans := by
  unfold release
  split <;> rfl

theorem outstanding_release (p : Pool) (b : Buffer) : (p.release b).outstanding = p.outstanding - 1 := by
  unfold release
  split <;> rfl

/-! ### Pools in use -/

/-- Use of a new pool leads to this pool, with these buffers on loan. -/
inductive Reached (c : Config) : Pool → List Buffer → Prop
  | new : Reached c (new c) []
  | alloc {p : Pool} {loans : List Buffer} (h : Reached c p loans) (capacity : Nat) :
    Reached c (p.alloc capacity).2 ((p.alloc capacity).1 :: loans)
  | lent {p p' : Pool} {loans : List Buffer} {b : Buffer} {capacity : Nat} (h : Reached c p loans)
    (ok : tryAlloc capacity p = .ok b p') : Reached c p' (b :: loans)
  | refused {p p' : Pool} {loans : List Buffer} {refusal : Refusal} {capacity : Nat} (h : Reached c p loans)
    (error : tryAlloc capacity p = .error refusal p') : Reached c p' loans
  /-- A buffer on loan is used, which leaves it the storage that it has. -/
  | used {p : Pool} {before after : List Buffer} {b b' : Buffer} (h : Reached c p (before ++ b :: after))
    (sizeClass : b'.sizeClass = b.sizeClass) (capacity : b'.capacity = b.capacity) :
    Reached c p (before ++ b' :: after)
  | released {p : Pool} {before after : List Buffer} {b : Buffer} (h : Reached c p (before ++ b :: after)) :
    Reached c (p.release b) (before ++ after)

/-- However a pool was used, it is sound, and what it has on loan can come back. -/
theorem Reached.sound {loans : List Buffer} (h : Reached c p loans) :
    p.Sound ∧ p.config = c ∧ ∀ b ∈ loans, b.Homed c := by
  induction h with
  | new => exact ⟨sound_new c, rfl, fun _ hb => absurd hb List.not_mem_nil⟩
  | alloc _ capacity ih =>
    obtain ⟨hsound, rfl, hloans⟩ := ih
    have hlent := lent_alloc hsound capacity
    exact ⟨hlent.sound, hlent.config, List.forall_mem_cons.2 ⟨hlent.homed, hloans⟩⟩
  | @lent p p' loans b capacity _ hok ih =>
    obtain ⟨hsound, rfl, hloans⟩ := ih
    have hlent := lent_tryAlloc hsound capacity
    rw [hok] at hlent
    exact ⟨hlent.sound, hlent.config, List.forall_mem_cons.2 ⟨hlent.homed, hloans⟩⟩
  | @refused p p' loans refusal capacity _ herror ih =>
    obtain ⟨hsound, rfl, hloans⟩ := ih
    have hrefused := lent_tryAlloc hsound capacity
    rw [herror] at hrefused
    exact ⟨hrefused.1, hrefused.2, hloans⟩
  | used _ hclass hcapacity ih =>
    obtain ⟨hsound, hconfig, hloans⟩ := ih
    rw [List.forall_mem_append, List.forall_mem_cons] at hloans ⊢
    exact ⟨hsound, hconfig, hloans.1, hloans.2.1.of_capacity hclass hcapacity, hloans.2.2⟩
  | released _ ih =>
    obtain ⟨hsound, rfl, hloans⟩ := ih
    rw [List.forall_mem_append, List.forall_mem_cons] at hloans
    obtain ⟨hreleased, hconfig⟩ := sound_release hsound hloans.2.1
    exact ⟨hreleased, hconfig, List.forall_mem_append.2 ⟨hloans.1, hloans.2.2⟩⟩

end Pool

end CompactWire

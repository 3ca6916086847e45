import CompactWire.Pool.Use
import CompactWire.Proofs.Lending

/-!
# CompactWire.Proofs.Accounting — the books of a pool

Every slot of a size class is either free or on loan, and the counters tell which (`SizeClass.Balanced`).  A loan that
finds a free slot and a buffer that comes back move one slot from one side to the other (`Balanced.take`,
`Balanced.restore`), a refusal moves none.  `Balanced` says so of all classes of a pool at once, given the list of what
is on loan; it is kept by every use of the pool and of the buffers, so it holds after any history (`accounted`).
-/

namespace CompactWire

/-! ### Buffers -/

namespace Buffer

theorem sizeClass_after (b : Buffer) (call : Call) : (call.after b).sizeClass = b.sizeClass := by
  cases call with
  | put | write => rfl
  | commit n =>
    simp only [Call.after, commit]
    split <;> rfl
  | consume n =>
    simp only [Call.after, consume]
    split <;> rfl
  | advance n =>
    simp only [Call.after, advance]
    split <;> rfl
  | next =>
    simp only [Call.after, next]
    split <;> rfl

/-- Room that is given up is taken by bytes. -/
theorem capacity_fill {b : Buffer} {bytes : Bytes} {n : Nat} (hlen : bytes.length = n) (hn : n ≤ b.room) :
    capacity { b with ready := b.ready ++ bytes, spare := b.spare.drop n } = b.capacity := by
  simp only [capacity, filled, cursor, room, List.length_append, size_drop] at hn ⊢
  omega

/-- No call changes what a buffer holds altogether. -/
theorem capacity_after (b : Buffer) (call : Call) : (call.after b).capacity = b.capacity := by
  cases call with
  | put bytes =>
    exact capacity_fill (List.length_take_of_le (Nat.min_le_left ..)) (Nat.min_le_right ..)
  | write bytes =>
    show b.filled + (b.spare.overwrite bytes).size = _
    rw [size_overwrite]
    rfl
  | commit n =>
    simp only [Call.after, commit]
    split
    · rfl
    · rename_i hn
      have hn := Nat.le_of_not_lt hn
      refine capacity_fill ?_ hn
      rw [Region.take_eq, List.length_take, Region.length_toList]
      exact Nat.min_eq_left hn
  | consume n =>
    simp only [Call.after, consume]
    split
    · rfl
    · exact capacity_skip n b
  | advance n =>
    simp only [Call.after, advance]
    split
    · rfl
    · exact capacity_skip n b
  | next =>
    simp only [Call.after, next]
    split
    · rfl
    · rename_i byte ready hready
      show capacity { b with taken := byte :: b.taken, ready } = _
      simp only [capacity, filled, cursor, room, hready, List.length_cons]
      omega

end Buffer

namespace Pool

variable {c : Config} {p : Pool} {live : List Buffer} {u : InUse}

/-! ### Size classes of requests -/

/-- A request is served from the smallest class that holds it. -/
theorem Config.classIndex?_eq_some_iff {n i : Nat} :
    c.classIndex? n = some i ↔ n ≤ c.maxSize ∧ n ≤ c.classSize i ∧ ∀ j < i, c.classSize j < n := by
  unfold classIndex?
  split
  · simp only [reduceCtorEq, false_iff]
    omega
  · rename_i hmax
    simp only [← Nat.not_le, le_classSize_iff, Option.some.injEq]
    constructor
    · rintro rfl
      exact ⟨by omega, Nat.le_refl _, fun j hj => hj⟩
    · rintro ⟨-, hi, hleast⟩
      refine Nat.le_antisymm hi (Nat.le_of_not_lt fun hlt => ?_)
      exact hleast _ (Nat.not_le.2 hlt) (Nat.le_refl _)

theorem Config.classIndex?_eq_none_iff {n : Nat} : c.classIndex? n = none ↔ c.maxSize < n := by
  unfold classIndex?
  split <;> simp [*]

theorem Config.classIndex?_lt {n i : Nat} (h : c.classIndex? n = some i) : i < c.numClasses := by
  obtain ⟨hmax, -, hleast⟩ := classIndex?_eq_some_iff.1 h
  have hgreatest : c.classSize (c.maxExp - c.minExp) = c.maxSize := by
    rw [classSize, Nat.add_sub_cancel' c.minExp_le_maxExp, maxSize]
  refine Nat.lt_of_not_le fun hi => ?_
  have hlt := hleast (c.maxExp - c.minExp) hi
  rw [hgreatest] at hlt
  exact Nat.not_lt.2 hmax hlt

/-! ### Slots -/

/-- The slots and counters of a class with `perClass` slots, of which `live` are on loan. -/
structure SizeClass.Balanced (perClass live : Nat) (s : SizeClass) : Prop where
  total : s.slots.length + live = perClass
  allocated : s.allocated = live
  gauge : s.allocatedGauge.getD 0 = live
  available : s.available.getD 0 = s.slots.countP Option.isSome

/-- A class that has refused a request. -/
def SizeClass.refuse (s : SizeClass) : SizeClass := { s with exhausted := s.exhausted + 1 }

namespace SizeClass

variable {perClass n : Nat} {s : SizeClass}

theorem balanced_new (c : Config) (i : Nat) : (SizeClass.new c i).Balanced c.perClass 0 := by
  refine ⟨List.length_replicate, rfl, rfl, ?_⟩
  unfold SizeClass.new
  by_cases hprefill : c.prefill = true
  · simp [hprefill, List.countP_replicate]
  · simp [hprefill, List.countP_replicate]

/-- A class refuses a request just if all of its slots are on loan, and lends one of them otherwise. -/
theorem Balanced.take (h : s.Balanced perClass n) :
    (n = perClass ∧ s.take = (none, s.refuse)) ∨
    (n < perClass ∧ ∃ storage s', s.take = (some storage, s') ∧ s'.Balanced perClass (n + 1)) := by
  obtain ⟨htotal, hallocated, hgauge, havailable⟩ := h
  unfold SizeClass.take
  cases hslots : s.slots with
  | nil =>
    rw [hslots, List.length_nil] at htotal
    refine Or.inl ⟨by omega, ?_⟩
    simp only [SizeClass.refuse, hslots]
  | cons slot slots =>
    rw [hslots] at htotal havailable
    rw [List.length_cons] at htotal
    have hmoved : slots.length + (n + 1) = perClass := by omega
    have hlent : s.allocated + 1 = n + 1 := congrArg (· + 1) hallocated
    have hreported : s.allocatedGauge.getD 0 + 1 = n + 1 := congrArg (· + 1) hgauge
    refine Or.inr ⟨by omega, ?_⟩
    cases slot with
    | none => exact ⟨_, _, rfl, hmoved, hlent, hreported, by simpa using havailable⟩
    | some storage =>
      refine ⟨_, _, rfl, hmoved, hlent, hreported, ?_⟩
      show s.available.getD 0 - 1 = slots.countP Option.isSome
      rw [havailable]
      simp

theorem Balanced.refuse (h : s.Balanced perClass n) : s.refuse.Balanced perClass n := ⟨h.1, h.2, h.3, h.4⟩

/-- A buffer that comes back finds a slot. -/
theorem Balanced.length_lt (h : s.Balanced perClass n) (hn : 0 < n) : s.slots.length < perClass := by
  have htotal := h.total
  omega

theorem Balanced.restore (storage : Region) (h : s.Balanced perClass (n + 1)) :
    (s.restore perClass storage).Balanced perClass n := by
  have hlt := h.length_lt (Nat.succ_pos n)
  obtain ⟨htotal, hallocated, hgauge, havailable⟩ := h
  have hrest : s.allocated - 1 = n := by omega
  have hreported : s.allocatedGauge.getD 0 - 1 = n := by omega
  unfold SizeClass.restore
  dsimp only
  rw [if_pos hlt]
  refine ⟨?_, hrest, hreported, ?_⟩
  · simp only [List.length_append, List.length_singleton]
    omega
  · simp [havailable]

end SizeClass

/-! ### Pools -/

/-- The classes of a pool of which the given buffers are on loan are balanced. -/
structure Balanced (c : Config) (p : Pool) (live : List Buffer) : Prop where
  config : p.config = c
  length : p.classes.length = c.numClasses
  classes : ∀ (i : Nat) (s : SizeClass), p.classes[i]? = some s → s.Balanced c.perClass (tracked live i)
  homes : ∀ b ∈ live, ∀ i, b.sizeClass = some i → i < c.numClasses
  outstanding : p.outstanding = live.length

/-- A pool of which a class has refused a request. -/
def refuse (i : Nat) (p : Pool) : Pool := { p with classes := p.classes.modify i SizeClass.refuse }

/-- Where a buffer stands in the list does not matter. -/
theorem tracked_middle (before after : List Buffer) (b : Buffer) (i : Nat) :
    tracked (before ++ b :: after) i = tracked (before ++ after) i + if b.sizeClass = some i then 1 else 0 := by
  simp only [tracked, List.countP_append, List.countP_cons, decide_eq_true_eq]
  omega

theorem tracked_cons (b : Buffer) (live : List Buffer) (i : Nat) :
    tracked (b :: live) i = tracked live i + if b.sizeClass = some i then 1 else 0 :=
  tracked_middle [] live b i

theorem balanced_new (c : Config) : Balanced c (new c) [] where
  config := rfl
  length := by simp [new]
  classes := fun i s hs => by
    obtain ⟨j, -, rfl⟩ : ∃ j, (List.range c.numClasses)[i]? = some j ∧ SizeClass.new c j = s := by
      simpa [new] using hs
    exact SizeClass.balanced_new c j
  homes := fun _ hb => absurd hb List.not_mem_nil
  outstanding := rfl

theorem Balanced.exists_class (h : p.Balanced c live) {i : Nat} (hi : i < c.numClasses) :
    ∃ s, p.classes[i]? = some s :=
  ⟨_, List.getElem?_eq_getElem (h.length ▸ hi)⟩

theorem Balanced.refuse (h : p.Balanced c live) (i : Nat) : (p.refuse i).Balanced c live where
  config := h.config
  length := (List.length_modify ..).trans h.length
  classes := fun j t ht => by
    have ht : (p.classes.modify i SizeClass.refuse)[j]? = some t := ht
    rw [List.getElem?_modify] at ht
    obtain ⟨s, hs, rfl⟩ := Option.map_eq_some_iff.1 ht
    have hj := h.classes j s hs
    by_cases hij : i = j
    · rw [if_pos hij]
      exact hj.refuse
    · rw [if_neg hij]
      exact hj
  homes := h.homes
  outstanding := h.outstanding

theorem Balanced.oversized (h : p.Balanced c live) (n : Nat) : Balanced c { p with oversized := n } live :=
  ⟨h.config, h.length, h.classes, h.homes, h.outstanding⟩

/-- A buffer of no class is lent. -/
theorem Balanced.lend_untracked (h : p.Balanced c live) {b : Buffer} (hb : b.sizeClass = none) :
    p.lend.Balanced c (b :: live) where
  config := h.config
  length := h.length
  classes := fun i s hs => by
    rw [tracked_cons, hb, if_neg (by simp)]
    exact h.classes i s hs
  homes := List.forall_mem_cons.2 ⟨fun i hi => (by rw [hb] at hi; cases hi), h.homes⟩
  outstanding := congrArg (· + 1) h.outstanding

/-- A buffer of a class is lent. -/
theorem Balanced.lend_tracked (h : p.Balanced c live) {b : Buffer} {i : Nat} {s : SizeClass} (hb : b.sizeClass = some i)
    (hi : i < c.numClasses) (hs : s.Balanced c.perClass (tracked live i + 1)) :
    (lend { p with classes := p.classes.set i s }).Balanced c (b :: live) where
  config := h.config
  length := (List.length_set ..).trans h.length
  classes := fun j t ht => by
    have ht : (p.classes.set i s)[j]? = some t := ht
    rw [tracked_cons, hb]
    by_cases hij : i = j
    · subst hij
      rw [List.getElem?_set_self (h.length ▸ hi)] at ht
      cases ht
      rw [if_pos rfl]
      exact hs
    · rw [List.getElem?_set_ne hij] at ht
      rw [if_neg (by simpa using hij)]
      exact h.classes j t ht
  homes := List.forall_mem_cons.2 ⟨fun j hj => (by rw [hb] at hj; cases hj; exact hi), h.homes⟩
  outstanding := congrArg (· + 1) h.outstanding

/-- **What becomes of a request**: it is too great, or its class has nothing left to lend, or a loan begins. -/
theorem Balanced.tryAlloc_cases (h : p.Balanced c live) (n : Nat) :
    (c.maxSize < n ∧ tryAlloc n p = .error .oversized { p with oversized := p.oversized + 1 }) ∨
    ∃ i, c.classIndex? n = some i ∧
      ((tracked live i = c.perClass ∧ tryAlloc n p = .error .exhausted (p.refuse i)) ∨
        (tracked live i < c.perClass ∧ ∃ b p', tryAlloc n p = .ok b p' ∧ p'.Balanced c (b :: live) ∧
          p'.loans = p.loans + 1)) := by
  obtain rfl := h.config
  unfold tryAlloc
  cases hclass : p.config.classIndex? n with
  | none => exact Or.inl ⟨Config.classIndex?_eq_none_iff.1 hclass, rfl⟩
  | some i =>
    refine Or.inr ⟨i, rfl, ?_⟩
    have hi := Config.classIndex?_lt hclass
    obtain ⟨s, hs⟩ := h.exists_class hi
    dsimp only
    rw [hs, Option.map_some]
    rcases (h.classes i s hs).take with ⟨hlive, htake⟩ | ⟨hlive, storage, s', htake, hbalanced⟩
    · have hset : p.classes.set i s.refuse = p.classes.modify i SizeClass.refuse := by
        have : Inhabited SizeClass := ⟨s⟩
        rw [List.modify_eq_set, hs, Option.getD_some]
      rw [htake, Pool.refuse, ← hset]
      exact Or.inl ⟨hlive, rfl⟩
    · rw [htake]
      exact Or.inr ⟨hlive, _, _, rfl, h.lend_tracked rfl hi hbalanced, rfl⟩

theorem Balanced.tryAlloc_eq_oversized_iff (h : p.Balanced c live) {n : Nat} {p' : Pool} :
    tryAlloc n p = .error .oversized p' ↔ c.maxSize < n ∧ p' = { p with oversized := p.oversized + 1 } := by
  rcases h.tryAlloc_cases n with ⟨hn, htry⟩ | ⟨i, hi, hclass⟩
  · rw [htry]
    constructor
    · rintro ⟨⟩
      exact ⟨hn, rfl⟩
    · rintro ⟨-, rfl⟩
      rfl
  · have hn := (Config.classIndex?_eq_some_iff.1 hi).1
    refine ⟨fun herror => ?_, fun hmax => absurd hmax.1 (Nat.not_lt.2 hn)⟩
    rcases hclass with ⟨-, htry⟩ | ⟨-, b, p'', htry, -⟩
    · cases htry.symm.trans herror
    · cases htry.symm.trans herror

theorem Balanced.tryAlloc_eq_exhausted_iff (h : p.Balanced c live) {n : Nat} {p' : Pool} :
    tryAlloc n p = .error .exhausted p' ↔
      ∃ i, c.classIndex? n = some i ∧ tracked live i = c.perClass ∧ p' = p.refuse i := by
  rcases h.tryAlloc_cases n with ⟨hn, htry⟩ | ⟨i, hi, ⟨hlive, htry⟩ | ⟨hlive, b, p'', htry, -⟩⟩
  · have hnone := Config.classIndex?_eq_none_iff.2 hn
    rw [htry, hnone]
    constructor
    · rintro ⟨⟩
    · rintro ⟨i, ⟨⟩, -⟩
  · rw [htry, hi]
    constructor
    · rintro ⟨⟩
      exact ⟨i, rfl, hlive, rfl⟩
    · rintro ⟨i, ⟨⟩, -, rfl⟩
      rfl
  · rw [htry, hi]
    constructor
    · rintro ⟨⟩
    · rintro ⟨i, ⟨⟩, hfull, -⟩
      exact absurd hfull (Nat.ne_of_lt hlive)

/-- A pool lends a buffer in any case. -/
theorem Balanced.alloc (h : p.Balanced c live) (n : Nat) :
    (p.alloc n).2.Balanced c ((p.alloc n).1 :: live) ∧ (p.alloc n).2.loans = p.loans + 1 := by
  unfold Pool.alloc
  rcases h.tryAlloc_cases n with ⟨-, htry⟩ | ⟨i, -, ⟨-, htry⟩ | ⟨-, b, p', htry, hbalanced, hloans⟩⟩
  · rw [htry]
    exact ⟨(h.oversized (p.oversized + 1)).lend_untracked rfl, rfl⟩
  · rw [htry]
    exact ⟨(h.refuse i).lend_untracked rfl, rfl⟩
  · rw [htry]
    exact ⟨hbalanced, hloans⟩

/-- A buffer on loan is used, which leaves it the class that it is from. -/
theorem Balanced.use {before after : List Buffer} {b b' : Buffer} (h : p.Balanced c (before ++ b :: after))
    (hclass : b'.sizeClass = b.sizeClass) : p.Balanced c (before ++ b' :: after) where
  config := h.config
  length := h.length
  classes := fun i s hs => by
    rw [tracked_middle, hclass, ← tracked_middle]
    exact h.classes i s hs
  homes := by
    have hhomes := h.homes
    rw [List.forall_mem_append, List.forall_mem_cons] at hhomes ⊢
    rw [hclass]
    exact hhomes
  outstanding := by
    rw [h.outstanding]
    simp

/-- A buffer comes back, to the class that it is from. -/
theorem Balanced.release {before after : List Buffer} {b : Buffer} (h : p.Balanced c (before ++ b :: after)) :
    (p.release b).Balanced c (before ++ after) := by
  have houtstanding : p.outstanding - 1 = (before ++ after).length := by
    rw [h.outstanding]
    simp only [List.length_append, List.length_cons]
    omega
  have hhomes : ∀ b' ∈ before ++ after, ∀ i, b'.sizeClass = some i → i < c.numClasses := by
    have hall := h.homes
    rw [List.forall_mem_append, List.forall_mem_cons] at hall
    exact List.forall_mem_append.2 ⟨hall.1, hall.2.2⟩
  have hclasses : ∀ (i : Nat) (s : SizeClass), p.classes[i]? = some s →
      s.Balanced c.perClass (tracked (before ++ after) i + if b.sizeClass = some i then 1 else 0) := fun i s hs => by
    rw [← tracked_middle]
    exact h.classes i s hs
  unfold Pool.release
  cases hb : b.sizeClass with
  | none =>
    refine ⟨h.config, h.length, fun i s hs => ?_, hhomes, houtstanding⟩
    have hi := hclasses i s hs
    rw [hb, if_neg (by simp)] at hi
    exact hi
  | some i =>
    refine ⟨h.config, (List.length_modify ..).trans h.length, fun j t ht => ?_, hhomes, houtstanding⟩
    have ht : (p.classes.modify i (SizeClass.restore p.config.perClass b.storage))[j]? = some t := ht
    rw [List.getElem?_modify, h.config] at ht
    obtain ⟨s, hs, rfl⟩ := Option.map_eq_some_iff.1 ht
    have hj := hclasses j s hs
    by_cases hij : i = j
    · rw [hb, if_pos (congrArg some hij)] at hj
      rw [if_pos hij]
      exact hj.restore b.storage
    · rw [hb, if_neg (by simpa using hij)] at hj
      rw [if_neg hij]
      exact hj

/-! ### Histories -/

/-- A pool in use is balanced, and can have come about from a new one. -/
structure InUse.Kept (c : Config) (u : InUse) : Prop where
  balanced : u.pool.Balanced c u.live
  lent : u.pool.loans = u.lent
  reached : Reached c u.pool u.live

/-- A list around one of its members. -/
theorem exists_middle {index : Nat} {b : Buffer} (h : live[index]? = some b) :
    ∃ before after, live = before ++ b :: after ∧ live.eraseIdx index = before ++ after ∧
      ∀ b', live.set index b' = before ++ b' :: after := by
  obtain ⟨hindex, rfl⟩ := List.getElem?_eq_some_iff.1 h
  refine ⟨live.take index, live.drop (index + 1), ?_, List.eraseIdx_eq_take_drop_succ .., fun b' => ?_⟩
  · rw [List.getElem_cons_drop, List.take_append_drop]
  · exact List.set_eq_take_append_cons_drop ▸ if_pos hindex

theorem InUse.kept_after (h : u.Kept c) (use : Use) : (u.after use).Kept c := by
  obtain ⟨hbalanced, hlent, hreached⟩ := h
  cases use with
  | alloc n =>
    obtain ⟨hbalanced, hloans⟩ := hbalanced.alloc n
    exact ⟨hbalanced, hloans.trans (congrArg (· + 1) hlent), hreached.alloc n⟩
  | tryAlloc n =>
    unfold InUse.after
    dsimp only
    rcases hbalanced.tryAlloc_cases n with ⟨-, htry⟩ | ⟨i, -, ⟨-, htry⟩ | ⟨-, b, p', htry, hbalanced', hloans⟩⟩
    · rw [htry]
      exact ⟨hbalanced.oversized _, hlent, hreached.refused htry⟩
    · rw [htry]
      exact ⟨hbalanced.refuse i, hlent, hreached.refused htry⟩
    · rw [htry]
      exact ⟨hbalanced', hloans.trans (congrArg (· + 1) hlent), hreached.lent htry⟩
  | call index call =>
    unfold InUse.after
    dsimp only
    split
    · exact ⟨hbalanced, hlent, hreached⟩
    · rename_i b hb
      obtain ⟨before, after, hlive, -, hset⟩ := exists_middle hb
      rw [hlive] at hbalanced hreached
      rw [hset]
      exact ⟨hbalanced.use (b.sizeClass_after call), hlent,
        hreached.used (b.sizeClass_after call) (b.capacity_after call)⟩
  | drop index =>
    unfold InUse.after
    dsimp only
    split
    · exact ⟨hbalanced, hlent, hreached⟩
    · rename_i b hb
      obtain ⟨before, after, hlive, herase, -⟩ := exists_middle hb
      rw [hlive] at hbalanced hreached
      rw [herase]
      exact ⟨hbalanced.release, (loans_release u.pool b).trans hlent, hreached.released⟩

theorem kept_history (c : Config) (uses : List Use) : (history c uses).Kept c := by
  have hrun : ∀ u : InUse, u.Kept c → (uses.foldl InUse.after u).Kept c := by
    induction uses with
    | nil => exact fun _ h => h
    | cons use uses ih => exact fun u h => ih _ (InUse.kept_after h use)
  exact hrun _ ⟨balanced_new c, rfl, .new⟩

/-- The books of a pool in use are right. -/
structure Accounted (c : Config) (u : InUse) : Prop where
  length : u.pool.classes.length = c.numClasses
  /-- A slot is free or on loan.  What the free ones hold has the size of the class, and the counter and the two gauges
  of the class tell how many are on loan and how many hold something. -/
  classes : ∀ (i : Nat) (s : SizeClass), u.pool.classes[i]? = some s →
    s.Sound (c.classSize i) ∧ s.Balanced c.perClass (tracked u.live i)
  /-- What comes back fits into its class, where a slot is wanting. -/
  homes : ∀ b ∈ u.live, ∀ i, b.sizeClass = some i → b.capacity = c.classSize i ∧
    ∃ s, u.pool.classes[i]? = some s ∧ s.slots.length < c.perClass
  /-- A refusal of a request that is too great changes no more than the counter of such refusals. -/
  oversized : ∀ n p, tryAlloc n u.pool = .error .oversized p ↔
    c.maxSize < n ∧ p = { u.pool with oversized := u.pool.oversized + 1 }
  /-- So does a refusal of a class all of whose buffers are on loan with the counter of the class. -/
  exhausted : ∀ n p, tryAlloc n u.pool = .error .exhausted p ↔
    ∃ i, c.classIndex? n = some i ∧ tracked u.live i = c.perClass ∧ p = u.pool.refuse i
  outstanding : u.pool.outstanding = u.live.length
  loans : u.pool.loans = u.lent

/-- Two classes of one buffer each: the second request finds the first class empty, the third is too great. -/
example :
    let u := history ⟨2, 3, 1, true, by decide, by decide⟩ [.tryAlloc 3, .tryAlloc 4, .alloc 9, .drop 1, .tryAlloc 8]
    u.live.map (·.sizeClass) = [some 1, none] ∧
      u.pool.classes.map (fun s => (s.slots.length, s.exhausted)) = [(1, 1), (0, 0)] ∧ u.pool.oversized = 1 := by cbv

end Pool

end CompactWire

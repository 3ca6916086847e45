import Mathlib.Data.Nat.Bitwise
import CompactWire.Pool.Handle
import CompactWire.Pool.Words
import CompactWire.Proofs.Cells

/-!
# CompactWire.Proofs.BestFit — requests are served from the smallest class that holds them

Sizes that pass the check of settings are powers of two, and so is all that is made of them on the way to a class: the
next power of two of a request, its quotient by the least size, a size that is moved up by the number of its class.  So
every operation on words can be carried out, and gives the word of what it gives on the exponents (`quotient_eq`,
`shift_eq`, `nextPowerOfTwo_eq`); the classes that words have are those of the configuration (`Words.Shows`).

That the class of a request is the best fit was shown of the configuration before (`Config.classIndex?_eq_some_iff`).
That a buffer has the size of its class comes from what a sound pool keeps in its slots (`lent_tryAlloc`).  `best_fit`
puts the two together.
-/

namespace CompactWire.Pool

theorem Config.ceilLog2_eq {n k : Nat} (hlt : 2 ^ k < n) (hle : n ≤ 2 ^ (k + 1)) : ceilLog2 n = k + 1 := by
  refine Nat.le_antisymm (ceilLog2_le_iff.2 ?_) (Nat.lt_of_not_le fun h => ?_)
  · rwa [Nat.one_shiftLeft]
  · have hn := ceilLog2_le_iff.1 h
    rw [Nat.one_shiftLeft] at hn
    exact Nat.not_lt.2 hn hlt

/-! ### Words -/

namespace Word

variable {v d : Word} {k a : Nat}

/-- Behind the bit of a power of two there are zeros only. -/
theorem trailingZeros_eq (hv : v.toNat = 2 ^ k) : v.trailingZeros = k := by
  have hne : v ≠ 0#64 := by
    rintro rfl
    exact Nat.ne_of_lt (Nat.two_pow_pos k) hv
  have hbit := BitVec.getLsbD_true_ctz_of_ne_zero hne
  rw [← BitVec.testBit_toNat, hv, Nat.testBit_two_pow, decide_eq_true_eq] at hbit
  exact hbit.symm

theorem quotient_eq (hv : v.toNat = 2 ^ k) (hd : d.toNat = 2 ^ a) (hle : a ≤ k) :
    ∃ q, v.quotient d = .ok q ∧ q.toNat = 2 ^ (k - a) := by
  have hne : d ≠ 0 := by
    rintro rfl
    exact Nat.ne_of_lt (Nat.two_pow_pos a) hd
  refine ⟨v / d, if_neg hne, ?_⟩
  rw [BitVec.toNat_udiv, hv, hd, Nat.pow_div hle (by decide)]

theorem shift_eq (hv : v.toNat = 2 ^ a) (hk : a + k < 64) :
    ∃ s, v.shift k = .ok s ∧ s.toNat = 2 ^ (a + k) := by
  refine ⟨v <<< k, if_pos (by omega), ?_⟩
  have hlt : 2 ^ (a + k) < 2 ^ 64 := Nat.pow_lt_pow_right (by decide) hk
  rw [BitVec.toNat_shiftLeft, hv, Nat.shiftLeft_eq, ← Nat.pow_add, Nat.mod_eq_of_lt hlt]

/-- A word of ones. -/
theorem toNat_allOnes_ushiftRight {z : Nat} (hz : z + k = 64) : (BitVec.allOnes 64 >>> z).toNat = 2 ^ k - 1 := by
  rw [BitVec.toNat_ushiftRight, BitVec.toNat_allOnes, ← hz]
  apply Nat.eq_of_testBit_eq
  intro i
  rw [Nat.testBit_shiftRight, Nat.testBit_two_pow_sub_one, Nat.testBit_two_pow_sub_one, decide_eq_decide]
  omega

/-- A word is compared with a power of two by the number of bits. -/
theorem le_iff_ceilLog2_le (hd : d.toNat = 2 ^ a) : v ≤ d ↔ Config.ceilLog2 v.toNat ≤ a := by
  rw [Config.ceilLog2_le_iff, Nat.one_shiftLeft, ← hd]
  rfl

/-- The zeros in front of what is one less than a word tell the two powers of two that the word is between. -/
theorem exists_bits (hpos : 1 < v.toNat) (hv : v.toNat ≤ 2 ^ 63) :
    ∃ k, (v - 1).clz.toNat + (k + 1) = 64 ∧ k + 1 < 64 ∧ 2 ^ k < v.toNat ∧ v.toNat ≤ 2 ^ (k + 1) := by
  have hpred : (v - 1).toNat = v.toNat - 1 := BitVec.toNat_sub_of_le (Nat.le_of_lt hpos)
  have hne : v - 1 ≠ 0#64 := by
    intro h
    rw [h, BitVec.toNat_zero] at hpred
    omega
  have hlow := BitVec.two_pow_sub_clz_le_toNat_of_ne_zero (by decide) hne
  have hhigh := BitVec.toNat_lt_two_pow_sub_clz (x := v - 1)
  rw [hpred] at hlow hhigh
  generalize (v - 1).clz.toNat = z at hlow hhigh
  have hfirst : z ≠ 0 := by
    rintro rfl
    exact absurd hlow (by omega)
  have hlast : 64 - z ≠ 0 := by
    intro hz
    rw [hz] at hhigh
    omega
  have hexp : 64 - 1 - z = 63 - z ∧ 64 - z = 63 - z + 1 := by omega
  rw [hexp.1] at hlow
  rw [hexp.2] at hhigh
  exact ⟨63 - z, by omega, by omega, by omega, by omega⟩

/-- Up to the greatest power of two that is a word, there is a next one. -/
theorem nextPowerOfTwo_eq (hv : v.toNat ≤ 2 ^ 63) :
    ∃ p, v.nextPowerOfTwo = .ok p ∧ p.toNat = 2 ^ Config.ceilLog2 v.toNat := by
  unfold nextPowerOfTwo
  by_cases hone : v ≤ 1
  · have hn : v.toNat ≤ 1 := hone
    rw [if_pos hone]
    exact ⟨1, rfl, by rw [Config.ceilLog2, if_pos hn]; rfl⟩
  · obtain ⟨k, hbits, hk, hlow, hhigh⟩ := exists_bits (Nat.lt_of_not_le hone) hv
    have hones := toNat_allOnes_ushiftRight hbits
    have hlt : 2 ^ (k + 1) < 2 ^ 64 := Nat.pow_lt_pow_right (by decide) hk
    have hnot : BitVec.allOnes 64 >>> (v - 1).clz.toNat ≠ BitVec.allOnes 64 := by
      intro h
      rw [h, BitVec.toNat_allOnes] at hones
      omega
    rw [if_neg hone, Config.ceilLog2_eq hlow hhigh]
    refine ⟨_, if_neg hnot, ?_⟩
    rw [BitVec.toNat_add, hones]
    exact (congrArg (· % 2 ^ 64) (Nat.sub_add_cancel (Nat.two_pow_pos _))).trans (Nat.mod_eq_of_lt hlt)

end Word

/-! ### Configurations -/

namespace Words

variable {w : Words} {c : Config}

/-- The words are the sizes of the configuration. -/
structure Shows (w : Words) (c : Config) : Prop where
  minSize : w.minSize.toNat = 2 ^ c.minExp
  maxSize : w.maxSize.toNat = 2 ^ c.maxExp

/-- Valid settings pass the check. -/
theorem Valid.exists_check (h : w.Valid) : ∃ c, w.settings.check = .ok c ∧ w.Shows c := by
  obtain ⟨a, ha⟩ := h.minSize
  obtain ⟨b, hb⟩ := h.maxSize
  have hclasses : 0 < w.perClass.toNat := Nat.pos_of_ne_zero fun h0 => h.perClass (BitVec.eq_of_toNat_eq h0)
  have hle : w.minSize.toNat ≤ w.maxSize.toNat := h.le
  have hexp : a ≤ b := by
    rw [ha, hb] at hle
    exact (Nat.pow_le_pow_iff_right (by decide)).1 hle
  have hpos : ¬(2 ^ a = 0 ∨ 2 ^ b = 0) := not_or.2 ⟨Nat.ne_of_gt (Nat.two_pow_pos a), Nat.ne_of_gt (Nat.two_pow_pos b)⟩
  refine ⟨⟨a, b, w.perClass.toNat, w.prefill, hexp, hclasses⟩, ?_, ha, hb⟩
  simp only [Settings.check, settings, ha, hb, Nat.log2_two_pow, Nat.one_shiftLeft, ne_eq, not_true, if_false,
    dif_pos hclasses, if_neg hpos, dif_pos hexp]

/-! ### Classes -/

theorem Shows.maxExp_lt (h : w.Shows c) : c.maxExp < 64 := by
  have hlt := w.maxSize.isLt
  rw [h.maxSize] at hlt
  exact (Nat.pow_lt_pow_iff_right (by decide)).1 hlt

theorem Shows.numClasses_eq (h : w.Shows c) : w.numClasses = .ok c.numClasses := by
  have hle : ¬w.maxSize < w.minSize := by
    show ¬w.maxSize.toNat < w.minSize.toNat
    rw [h.minSize, h.maxSize]
    exact Nat.not_lt.2 (Nat.pow_le_pow_right (by decide) c.minExp_le_maxExp)
  obtain ⟨q, hquotient, hq⟩ := Word.quotient_eq h.maxSize h.minSize c.minExp_le_maxExp
  unfold numClasses
  rw [if_neg hle, hquotient]
  show Except.ok (q.trailingZeros + 1) = _
  rw [Word.trailingZeros_eq hq]
  rfl

/-- No bit of the size of a class is lost. -/
theorem Shows.classSize_eq (h : w.Shows c) {i : Nat} (hi : i < c.numClasses) :
    ∃ size, w.classSize i = .ok size ∧ size.toNat = c.classSize i := by
  have hmax := h.maxExp_lt
  have hle := c.minExp_le_maxExp
  unfold Config.numClasses at hi
  obtain ⟨size, hshift, hsize⟩ := Word.shift_eq (k := i) h.minSize (by omega)
  exact ⟨size, hshift, hsize.trans (Nat.one_shiftLeft _).symm⟩

/-- The last class is that of the greatest size. -/
theorem Shows.classSize_last (h : w.Shows c) : w.classSize (c.numClasses - 1) = .ok w.maxSize := by
  have hle := c.minExp_le_maxExp
  obtain ⟨size, hsize, hnat⟩ := h.classSize_eq (i := c.numClasses - 1) (Nat.sub_lt (Nat.succ_pos _) Nat.one_pos)
  have hmax : size = w.maxSize := by
    apply BitVec.eq_of_toNat_eq
    rw [hnat, h.maxSize, Config.classSize, Nat.one_shiftLeft, Config.numClasses, Nat.add_sub_cancel,
      Nat.add_sub_cancel' hle]
  rw [hsize, hmax]

/-- Between the least and the greatest size, the next power of two tells the class. -/
theorem Shows.exists_index (h : w.Shows c) {n : Word} (hmin : ¬n ≤ w.minSize) (hmax : n ≤ w.maxSize) :
    ∃ power q, n.nextPowerOfTwo = .ok power ∧ power.quotient w.minSize = .ok q ∧
      q.trailingZeros = Config.ceilLog2 n.toNat - c.minExp ∧ Config.ceilLog2 n.toNat - c.minExp < c.numClasses := by
  have hexp := h.maxExp_lt
  rw [Word.le_iff_ceilLog2_le h.minSize] at hmin
  rw [Word.le_iff_ceilLog2_le h.maxSize] at hmax
  have hn : n.toNat ≤ 2 ^ 63 := by
    have hn := Config.ceilLog2_le_iff.1 (Nat.le_trans hmax (Nat.le_of_lt_succ hexp))
    rwa [Nat.one_shiftLeft] at hn
  obtain ⟨power, hnext, hpower⟩ := Word.nextPowerOfTwo_eq hn
  obtain ⟨q, hquotient, hq⟩ := Word.quotient_eq hpower h.minSize (Nat.le_of_not_le hmin)
  refine ⟨power, q, hnext, hquotient, Word.trailingZeros_eq hq, ?_⟩
  unfold Config.numClasses
  omega

/-- Words have the classes that numbers have. -/
theorem Shows.classIndex?_eq (h : w.Shows c) (n : Word) : w.classIndex? n = .ok (c.classIndex? n.toNat) := by
  unfold classIndex? Config.classIndex? Config.maxSize
  rw [Nat.one_shiftLeft, ← h.maxSize]
  by_cases hmax : w.maxSize < n
  · rw [if_pos hmax, if_pos (show w.maxSize.toNat < n.toNat from hmax)]
    rfl
  · rw [if_neg hmax, if_neg (show ¬w.maxSize.toNat < n.toNat from hmax)]
    by_cases hmin : n ≤ w.minSize
    · rw [if_pos hmin, Nat.sub_eq_zero_of_le ((Word.le_iff_ceilLog2_le h.minSize).1 hmin)]
      rfl
    · obtain ⟨power, q, hnext, hquotient, hzeros, hindex⟩ := h.exists_index hmin (Nat.le_of_not_lt hmax)
      rw [if_neg hmin, hnext]
      show (power.quotient w.minSize >>= _) = _
      rw [hquotient]
      show (w.numClasses >>= _) = _
      rw [h.numClasses_eq]
      show (if q.trailingZeros < c.numClasses then _ else _) = _
      rw [hzeros, if_pos hindex]
      rfl

/-- A request that is not too great has a class, the first that holds it. -/
theorem Shows.exists_first (h : w.Shows c) {n : Word} (hn : n ≤ w.maxSize) :
    ∃ i size, w.classIndex? n = .ok (some i) ∧ i < c.numClasses ∧ w.classSize i = .ok size ∧ n ≤ size ∧
      ∀ j < i, ∃ smaller, w.classSize j = .ok smaller ∧ smaller < n := by
  cases hindex : c.classIndex? n.toNat with
  | none =>
    have habove := Config.classIndex?_eq_none_iff.1 hindex
    rw [Config.maxSize, Nat.one_shiftLeft, ← h.maxSize] at habove
    exact absurd hn (Nat.not_le.2 habove)
  | some i =>
    have hi := Config.classIndex?_lt hindex
    obtain ⟨-, hholds, hfirst⟩ := Config.classIndex?_eq_some_iff.1 hindex
    obtain ⟨size, hsize, hnat⟩ := h.classSize_eq hi
    refine ⟨i, size, by rw [h.classIndex?_eq, hindex], hi, hsize, ?_, fun j hj => ?_⟩
    · show n.toNat ≤ size.toNat
      rwa [hnat]
    · obtain ⟨smaller, hsmaller, hnat'⟩ := h.classSize_eq (Nat.lt_trans hj hi)
      refine ⟨smaller, hsmaller, ?_⟩
      show smaller.toNat < n.toNat
      rw [hnat']
      exact hfirst j hj

end Words

/-! ### Loans -/

variable {c : Config} {p p' : Pool} {b : Buffer} {n : Nat}

/-- A buffer of a pool is as large as the class of the request. -/
theorem capacity_tryAlloc (hsound : p.Sound) (hconfig : p.config = c) (hok : tryAlloc n p = .ok b p') :
    ∃ i, c.classIndex? n = some i ∧ b.sizeClass = some i ∧ b.capacity = c.classSize i := by
  subst hconfig
  have hlent := lent_tryAlloc hsound n
  have hclasses := length_classes_tryAlloc p n
  rw [hok] at hlent hclasses
  have hclass : b.sizeClass = p.config.classIndex? n := hclasses.2
  cases hindex : p.config.classIndex? n with
  | none =>
    unfold tryAlloc at hok
    rw [hindex] at hok
    cases hok
  | some i =>
    rw [hindex] at hclass
    exact ⟨i, rfl, hclass, hlent.homed i hclass⟩

/-- What is lent is a buffer of the pool, or one of no class that is as large as the request. -/
theorem alloc_cases (hsound : p.Sound) (hconfig : p.config = c) (n : Nat) :
    tryAlloc n p = .ok (p.alloc n).1 (p.alloc n).2 ∨
    ((p.alloc n).1.sizeClass = none ∧ (p.alloc n).1.capacity = max n c.minSize) := by
  have hlent := lent_tryAlloc hsound n
  unfold alloc
  cases htry : tryAlloc n p with
  | ok b p' => exact Or.inl rfl
  | error refusal p' =>
    rw [htry] at hlent
    have hkept : p'.config = c := hlent.2.trans hconfig
    subst hkept
    exact Or.inr ⟨rfl, Nat.zero_add _ |>.trans (Nat.zero_add _)⟩

/-- A pool in use tracks the buffers of its classes. -/
theorem tracks_live (p : Pool) (b : Buffer) : (Handle.live p).tracks b = b.sizeClass.isSome := Bool.and_true _

namespace Words

variable {w : Words}

/-- A buffer of the pool, as large as the class of a request. -/
def Fits (w : Words) (n : Word) (b : Buffer) : Prop :=
  ∃ i size, w.classIndex? n = .ok (some i) ∧ w.classSize i = .ok size ∧ b.sizeClass = some i ∧ b.capacity = size.toNat

theorem Shows.fits (h : w.Shows c) {n : Word} (hsound : p.Sound) (hconfig : p.config = c)
    (hok : tryAlloc n.toNat p = .ok b p') : w.Fits n b ∧ n.toNat ≤ b.capacity := by
  obtain ⟨i, hindex, hclass, hcapacity⟩ := capacity_tryAlloc hsound hconfig hok
  obtain ⟨size, hsize, hnat⟩ := h.classSize_eq (Config.classIndex?_lt hindex)
  refine ⟨⟨i, size, ?_, hsize, hclass, hcapacity.trans hnat.symm⟩, ?_⟩
  · rw [h.classIndex?_eq, hindex]
  · rw [hcapacity]
    exact Config.le_classSize hindex

theorem Fits.tracks {n : Word} (h : w.Fits n b) (p : Pool) : (Handle.live p).tracks b := by
  obtain ⟨i, -, -, -, hclass, -⟩ := h
  rw [tracks_live, hclass]
  rfl

/-- The classes of a pool with the settings `w`, checked to be `c`, fit requests best, and what it lends is of them. -/
structure BestFit (w : Words) (c : Config) : Prop where
  numClasses : w.numClasses = .ok c.numClasses
  /-- No bit of the size of a class is lost. -/
  classSize : ∀ i < c.numClasses, ∃ size, w.classSize i = .ok size ∧ size.toNat = w.minSize.toNat * 2 ^ i ∧
    size.toNat = c.classSize i
  greatest : w.classSize (c.numClasses - 1) = .ok w.maxSize
  /-- A request has no class exactly when it is above the greatest size. -/
  none_iff : ∀ n, w.classIndex? n = .ok none ↔ w.maxSize < n
  /-- Up to there it is the first class that holds the request. -/
  first : ∀ n ≤ w.maxSize, ∃ i size, w.classIndex? n = .ok (some i) ∧ i < c.numClasses ∧ w.classSize i = .ok size ∧
    n ≤ size ∧ ∀ j < i, ∃ smaller, w.classSize j = .ok smaller ∧ smaller < n
  /-- It is the class that the pool looks up. -/
  classIndex? : ∀ n, w.classIndex? n = .ok (c.classIndex? n.toNat)
  tryAlloc : ∀ uses (n : Word) b p, tryAlloc n.toNat (history c uses).pool = .ok b p →
    (Handle.live p).tracks b ∧ w.Fits n b ∧ n.toNat ≤ b.capacity
  alloc : ∀ uses (n : Word) b p, (history c uses).pool.alloc n.toNat = (b, p) →
    ((Handle.live p).tracks b → w.Fits n b) ∧
    (¬(Handle.live p).tracks b → b.capacity = max n.toNat w.minSize.toNat) ∧
    n.toNat ≤ b.capacity

/-- **Requests are served from the smallest class that holds them**, for all sizes and all requests of 64 bits: no
operation overflows on the way to the class.  However a pool was used, it lends a buffer of just that size, or one of no
class that is as large as the request. -/
theorem best_fit (h : w.Valid) : ∃ c, w.settings.check = .ok c ∧ w.BestFit c := by
  obtain ⟨c, hcheck, hshows⟩ := h.exists_check
  refine ⟨c, hcheck, hshows.numClasses_eq, fun i hi => ?_, ?_, fun n => ?_, fun n hn => ?_, hshows.classIndex?_eq,
    fun uses n b p hok => ?_, fun uses n b p halloc => ?_⟩
  · obtain ⟨size, hsize, hnat⟩ := hshows.classSize_eq hi
    refine ⟨size, hsize, ?_, hnat⟩
    rw [hnat, hshows.minSize, Config.classSize, Nat.one_shiftLeft, Nat.pow_add]
  · exact hshows.classSize_last
  · rw [hshows.classIndex?_eq, Except.ok.injEq, Config.classIndex?_eq_none_iff, Config.maxSize, Nat.one_shiftLeft,
      ← hshows.maxSize]
    rfl
  · exact hshows.exists_first hn
  · obtain ⟨hsound, hconfig, -⟩ := (kept_history c uses).reached.sound
    obtain ⟨hfits, hholds⟩ := hshows.fits hsound hconfig hok
    exact ⟨hfits.tracks p, hfits, hholds⟩
  · obtain ⟨hsound, hconfig, -⟩ := (kept_history c uses).reached.sound
    have hcases := alloc_cases hsound hconfig n.toNat
    rw [halloc] at hcases
    rcases hcases with hok | ⟨hnone, hcapacity⟩
    · obtain ⟨hfits, hholds⟩ := hshows.fits hsound hconfig hok
      exact ⟨fun _ => hfits, fun htracks => absurd (hfits.tracks p) htracks, hholds⟩
    · have hmin : c.minSize = w.minSize.toNat := (Nat.one_shiftLeft _).trans hshows.minSize.symm
      have huntracked : ¬(Handle.live p).tracks b := by
        rw [tracks_live, show b.sizeClass = none from hnone]
        exact Bool.false_ne_true
      refine ⟨fun htracks => absurd htracks huntracked, fun _ => hmin ▸ hcapacity, ?_⟩
      rw [hcapacity]
      exact Nat.le_max_left _ _

/-- With sizes from 1 byte on up to the greatest power of two that is a word, a request of one byte more than the half
of that takes the last class. -/
theorem best_fit_extreme :
    let w : Words := ⟨1, 0x8000000000000000, 1, false⟩
    w.Valid ∧ w.classIndex? 0x4000000000000001 = .ok (some 63) ∧ ∃ c, w.settings.check = .ok c ∧ w.BestFit c := by
  have hvalid : Words.Valid ⟨1, 0x8000000000000000, 1, false⟩ := ⟨⟨0, rfl⟩, ⟨63, rfl⟩, by decide, by decide⟩
  exact ⟨hvalid, by decide +kernel, best_fit hvalid⟩

end Words

end CompactWire.Pool

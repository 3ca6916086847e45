import CompactWire.Bytes

/-!
# CompactWire.Buffer.Region — storage that starts out as zeros

A region holds bytes that were written and, behind them, zeros that never were.  Only the written part is kept as a
list, so a large fresh region costs nothing; `toList` is the region byte by byte.
-/

namespace CompactWire

/-- Bytes of storage: `written`, then `zeros` zero bytes. -/
structure Region where
  written : Bytes
  zeros : Nat

namespace Region

/-- Fresh storage. -/
def fresh (size : Nat) : Region := ⟨[], size⟩

/-- The most bytes that storage can be made of. -/
def maxSize : Nat := (1 <<< 63) - 1

/-- The number of bytes of a region. -/
def size (r : Region) : Nat := r.written.length + r.zeros

/-- The bytes of a region. -/
def toList (r : Region) : Bytes := r.written ++ List.replicate r.zeros 0

/-- The first `n` bytes. -/
def take (n : Nat) (r : Region) : Bytes :=
  r.written.take n ++ List.replicate (min (n - r.written.length) r.zeros) 0

/-- The region behind the first `n` bytes. -/
def drop (n : Nat) (r : Region) : Region :=
  ⟨r.written.drop n, r.zeros - (n - r.written.length)⟩

/-- Writes as many bytes as fit at the front of a region. -/
def overwrite (bytes : Bytes) (r : Region) : Region :=
  let bytes := bytes.take r.size
  let rest := r.drop bytes.length
  ⟨bytes ++ rest.written, rest.zeros⟩

@[simp] theorem length_toList (r : Region) : r.toList.length = r.size := by
  simp [toList, size]

@[simp] theorem take_eq (n : Nat) (r : Region) : r.take n = r.toList.take n := by
  simp [take, toList, List.take_append, List.take_replicate]

@[simp] theorem toList_drop (n : Nat) (r : Region) : (r.drop n).toList = r.toList.drop n := by
  simp [drop, toList, List.drop_append, List.drop_replicate]

theorem toList_overwrite (bytes : Bytes) (r : Region) :
    (r.overwrite bytes).toList = bytes.take r.size ++ r.toList.drop bytes.length := by
  by_cases h : bytes.length ≤ r.size
  · have h' := toList_drop bytes.length r
    simp only [overwrite, List.take_of_length_le h]
    rw [← h']
    simp [toList]
  · have h1 : (bytes.take r.size).length = r.size := by simp; omega
    have h2 : r.toList.drop bytes.length = [] := by
      apply List.drop_eq_nil_of_le
      rw [length_toList]
      omega
    have h3 := toList_drop r.size r
    rw [List.drop_of_length_le (by simp)] at h3
    simp only [overwrite, h1, h2]
    simp only [toList] at h3
    simp [toList, h3]

end Region

end CompactWire

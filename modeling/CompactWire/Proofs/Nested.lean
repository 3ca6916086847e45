import CompactWire.Reader.Nested

/-!
# CompactWire.Proofs.Nested — a reader that is told of its calls reads as ever

The levels that are left and the depth sum up to one more than the limit all the way down.  So a reading that counts the
depth and tells of every call is the one that descends by levels, as long as nothing is done where a call begins.
-/

namespace CompactWire.Reader

variable {ι span : Type} [Input ι span] {enter : Nat → Reading ι Unit} {rounds maxDepth : Nat}

/-- A reader that is not disturbed down to one below the limit reads values as one that is not told of. -/
theorem valueAt_eq (hquiet : ∀ depth ≤ maxDepth + 1, enter depth = pure ()) : ∀ (levels depth : Nat),
    depth + levels = maxDepth + 1 → valueAt enter rounds maxDepth depth = valueWithin rounds levels
  | 0, depth, hsum => by
    funext type
    rw [valueAt.eq_def, hquiet depth (by omega), if_pos (by omega)]
    rfl
  | levels + 1, depth, hsum => by
    have ih := valueAt_eq hquiet levels (depth + 1) (by omega)
    funext type
    rw [valueAt.eq_def, hquiet depth (by omega), if_neg (by omega), ih]
    cases type <;> rfl

theorem skipAt_eq (hquiet : ∀ depth ≤ maxDepth + 1, enter depth = pure ()) : ∀ (levels depth : Nat),
    depth + levels = maxDepth + 1 → skipAt enter rounds maxDepth depth = skipWithin rounds levels
  | 0, depth, hsum => by
    funext type
    rw [skipAt.eq_def, hquiet depth (by omega), if_pos (by omega)]
    rfl
  | levels + 1, depth, hsum => by
    have ih := skipAt_eq hquiet levels (depth + 1) (by omega)
    funext type
    rw [skipAt.eq_def, hquiet depth (by omega), if_neg (by omega), ih]
    cases type <;> rfl

end CompactWire.Reader

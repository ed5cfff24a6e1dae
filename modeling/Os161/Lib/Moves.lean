import Os161.Lib.Bytes

/-! # Counted loops, and moving a block piece by piece

A block is moved within one array in pieces of `w` elements, each read as a whole before it is
written. Going up is safe towards lower positions and going down towards higher ones, however
much the two blocks overlap. -/
namespace Os161.Lib

section Loops

variable {σ : Type} {body : Nat → σ → σ}

/-- `for (i = 0; i < n; i++) body(i)`. -/
def forUp (body : Nat → σ → σ) : Nat → σ → σ
  | 0, s => s
  | n + 1, s => body n (forUp body n s)

/-- `for (i = n; i > 0; i--) body(i-1)`. -/
def forDown (body : Nat → σ → σ) : Nat → σ → σ
  | 0, s => s
  | n + 1, s => forDown body n (body n s)

/-- Loops whose rounds are the same as far as they go. -/
theorem forUp_congr {body' : Nat → σ → σ} {n : Nat} (h : ∀ k < n, body k = body' k) :
    forUp body n = forUp body' n := by
  induction n with
  | zero => rfl
  | succ n ih =>
    funext s
    rw [forUp, forUp, ih fun k hk => h k (Nat.lt_succ_of_lt hk), h n (Nat.lt_succ_self n)]

theorem forDown_congr {body' : Nat → σ → σ} {n : Nat} (h : ∀ k < n, body k = body' k) :
    forDown body n = forDown body' n := by
  induction n with
  | zero => rfl
  | succ n ih =>
    funext s
    rw [forDown, forDown, ih fun k hk => h k (Nat.lt_succ_of_lt hk), h n (Nat.lt_succ_self n)]

end Loops

section Pieces

variable {α : Type} {d s w : Nat}

/-- Piece `k` of the block at `s` goes to the block at `d`. -/
def movePiece (d s w k : Nat) (f : Nat → α) : Nat → α :=
  overlay f (d + w * k) (slice f (s + w * k) w)

theorem forUp_movePiece (h : d ≤ s) (n : Nat) (f : Nat → α) :
    forUp (movePiece d s w) n f = overlay f d (slice f s (w * n)) := by
  induction n with
  | zero => rw [forUp, Nat.mul_zero, slice_zero, overlay_nil]
  | succ n ih =>
    -- what is written so far lies below what is read next
    have hread : slice (overlay f d (slice f s (w * n))) (s + w * n) w =
        slice f (s + w * n) w :=
      slice_overlay_of_ge (by rw [length_slice]; omega)
    have happend := overlay_append f d (slice f s (w * n)) (slice f (s + w * n) w)
    rw [length_slice] at happend
    rw [forUp, ih, movePiece, hread, Nat.mul_succ, slice_add, happend]

theorem forDown_movePiece (h : s ≤ d) (n : Nat) (f : Nat → α) :
    forDown (movePiece d s w) n f = overlay f d (slice f s (w * n)) := by
  induction n generalizing f with
  | zero => rw [forDown, Nat.mul_zero, slice_zero, overlay_nil]
  | succ n ih =>
    have hread : slice (movePiece d s w n f) s (w * n) = slice f s (w * n) :=
      slice_overlay_of_le (by omega)
    have hjoin := overlay_below f d (slice f s (w * n)) (slice f (s + w * n) w)
    rw [length_slice] at hjoin
    rw [forDown, ih, hread, movePiece, hjoin, Nat.mul_succ, slice_add]

end Pieces

end Os161.Lib

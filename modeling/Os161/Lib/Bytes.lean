import Mathlib.Data.List.Basic
import Mathlib.Tactic.Common

/-! # Unbounded arrays

An array without end is a function on positions. `slice` reads a stretch of it
and `overlay` writes one; the rules say how both compose. -/
namespace Os161.Lib

variable {α : Type}

/-- The `n` elements from position `o`. -/
def slice (f : Nat → α) (o n : Nat) : List α := (List.range n).map fun k => f (o + k)

/-- The array with `l` written at position `o`. -/
def overlay (f : Nat → α) (o : Nat) (l : List α) : Nat → α := fun x =>
  if o ≤ x then (l[x - o]?).getD (f x) else f x

@[simp] theorem slice_zero (f : Nat → α) (o : Nat) : slice f o 0 = [] := rfl

@[simp] theorem length_slice (f : Nat → α) (o n : Nat) : (slice f o n).length = n := by
  simp [slice]

theorem getElem_slice (f : Nat → α) (o n k : Nat) (h : k < (slice f o n).length) :
    (slice f o n)[k] = f (o + k) := by
  simp [slice]

theorem slice_add (f : Nat → α) (o n m : Nat) :
    slice f o (n + m) = slice f o n ++ slice f (o + n) m := by
  simp [slice, List.range_add, Nat.add_assoc]

@[simp] theorem overlay_nil (f : Nat → α) (o : Nat) : overlay f o [] = f := by
  funext x
  simp [overlay]

theorem overlay_of_lt {f : Nat → α} {o x : Nat} (l : List α) (h : x < o) :
    overlay f o l x = f x := by
  rw [overlay, if_neg (by omega)]

theorem overlay_of_ge {f : Nat → α} {o x : Nat} {l : List α} (h : o + l.length ≤ x) :
    overlay f o l x = f x := by
  rw [overlay, if_pos (by omega), List.getElem?_eq_none (by omega), Option.getD_none]

theorem overlay_of_mem {f : Nat → α} {o x : Nat} {l : List α} (h : o ≤ x) (hl : x - o < l.length) :
    overlay f o l x = l[x - o] := by
  rw [overlay, if_pos h, List.getElem?_eq_getElem hl, Option.getD_some]

theorem overlay_append (f : Nat → α) (o : Nat) (l m : List α) :
    overlay f o (l ++ m) = overlay (overlay f o l) (o + l.length) m := by
  funext x
  have hlen : (l ++ m).length = l.length + m.length := List.length_append
  by_cases h : o ≤ x
  · by_cases hl : x - o < l.length
    · rw [overlay_of_lt m (by omega), overlay_of_mem h hl, overlay_of_mem h (by omega),
        List.getElem_append_left hl]
    · by_cases hm : x - (o + l.length) < m.length
      · rw [overlay_of_mem (by omega) hm, overlay_of_mem h (by omega),
          List.getElem_append_right (by omega)]
        congr 1
        omega
      · rw [overlay_of_ge (l := l ++ m) (by omega), overlay_of_ge (l := m) (by omega),
          overlay_of_ge (l := l) (by omega)]
  · rw [overlay_of_lt _ (by omega), overlay_of_lt _ (by omega), overlay_of_lt _ (by omega)]

/-- Writing the stretch in front of what is written already. -/
theorem overlay_below (f : Nat → α) (o : Nat) (l m : List α) :
    overlay (overlay f (o + l.length) m) o l = overlay f o (l ++ m) := by
  rw [overlay_append]
  funext x
  by_cases h : o ≤ x ∧ x - o < l.length
  · rw [overlay_of_mem h.1 h.2, overlay_of_lt _ (by omega), overlay_of_mem h.1 h.2]
  · have hout (g : Nat → α) : overlay g o l x = g x := by
      by_cases hx : o ≤ x
      · exact overlay_of_ge (by omega)
      · exact overlay_of_lt _ (by omega)
    rw [hout]
    unfold overlay
    rw [show (if o ≤ x then (l[x - o]?).getD (f x) else f x) = f x from hout f]

theorem slice_overlay_of_ge {f : Nat → α} {o p n : Nat} {l : List α} (h : o + l.length ≤ p) :
    slice (overlay f o l) p n = slice f p n :=
  List.map_congr_left fun _ _ => overlay_of_ge (Nat.le_add_right_of_le h)

theorem slice_overlay_of_le {f : Nat → α} {o p n : Nat} {l : List α} (h : p + n ≤ o) :
    slice (overlay f o l) p n = slice f p n :=
  List.map_congr_left fun k hk => overlay_of_lt l (by have := List.mem_range.mp hk; omega)

/-! ## Sparse arrays -/

/-- An array of a size; beyond it, and where nothing was written, it is zero. -/
structure SparseArray (α : Type) [Zero α] where
  size : Nat
  get : Nat → α
  beyond : ∀ x, size ≤ x → get x = 0

namespace SparseArray

variable [Zero α]

def empty : SparseArray α := ⟨0, fun _ => 0, fun _ _ => rfl⟩

/-- Overlay the array with `l` at `o`, up to which it reaches from then on. -/
def write (f : SparseArray α) (o : Nat) (l : List α) : SparseArray α where
  size := max f.size (o + l.length)
  get := overlay f.get o l
  beyond x hx := by
    rw [overlay_of_ge (by omega)]
    exact f.beyond x (by omega)

/-- At most `n` elements from `o`, up to the end. -/
def read (f : SparseArray α) (o n : Nat) : List α := slice f.get o (min n (f.size - o))

theorem read_of_size_le {f : SparseArray α} {o : Nat} (n : Nat) (h : f.size ≤ o) :
    f.read o n = [] := by
  rw [read, Nat.sub_eq_zero_of_le h, Nat.min_zero, slice_zero]

end SparseArray

end Os161.Lib

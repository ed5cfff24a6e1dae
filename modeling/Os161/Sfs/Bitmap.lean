import Mathlib.Tactic.Common
import Mathlib.Data.Nat.Bitwise
import Mathlib.Tactic.IntervalCases
import Os161.Sfs.Stop
import Os161.Sfs.Layout

/-! # Bitmaps

`kern/lib/bitmap.c`: an array of bytes with the bit of index `i` in byte
`i / 8`, least significant first. `isset` is the set of indices a bitmap
stands for; each operation is described by what it does to that set. -/
namespace Os161.Sfs

@[reducible, simp] def bitsPerWord : Nat := 8
def wordAllbits : UInt8 := 0xff

structure Bitmap where
  nbits : Nat
  v : Nat → UInt8

namespace Bitmap

def setWord (b : Bitmap) (ix : Nat) (x : UInt8) : Bitmap :=
  { b with v := fun j => if j = ix then x else b.v j }

end Bitmap

def wordMask (offset : Nat) : UInt8 := 1 <<< UInt8.ofNat offset

/-- The marking of the leftover bits in the last word, from bit `j` up. -/
def bitmapCreate.tail (b : Bitmap) (ix : Nat) : (n j : Nat) → Bitmap
  | 0, _ => b
  | n + 1, j => bitmapCreate.tail (b.setWord ix (b.v ix ||| wordMask j)) ix n (j + 1)

/-- `bitmap_create`, allocation succeeding. -/
def bitmapCreate (nbits : Nat) : Bitmap :=
  let words := divRoundUp nbits bitsPerWord
  let b : Bitmap := ⟨nbits, fun _ => 0⟩
  if nbits / bitsPerWord < words then
    let ix := words - 1
    let overbits := nbits - ix * bitsPerWord
    bitmapCreate.tail b ix (bitsPerWord - overbits) overbits
  else b

/-- The search for a clear bit within word `ix`; `n` offsets remain. -/
def bitmapAlloc.offsets (b : Bitmap) (ix : Nat) :
    (n offset : Nat) → Except Stop (Option (Nat × Bitmap))
  | 0, _ => .error .bitmapAllocNone
  | n + 1, offset =>
    if b.v ix &&& wordMask offset = 0 then
      let b' := b.setWord ix (b.v ix ||| wordMask offset)
      let index := ix * bitsPerWord + offset
      if index < b.nbits then .ok (some (index, b')) else .error .bitmapAllocRange
    else bitmapAlloc.offsets b ix n (offset + 1)

/-- The search over the words; `n` of them remain. -/
def bitmapAlloc.words (b : Bitmap) : (n ix : Nat) → Except Stop (Option (Nat × Bitmap))
  | 0, _ => .ok none
  | n + 1, ix =>
    if b.v ix ≠ wordAllbits then bitmapAlloc.offsets b ix bitsPerWord 0
    else bitmapAlloc.words b n (ix + 1)

/-- `bitmap_alloc`: `none` is `ENOSPC`. -/
def bitmapAlloc (b : Bitmap) : Except Stop (Option (Nat × Bitmap)) :=
  bitmapAlloc.words b (divRoundUp b.nbits bitsPerWord) 0

def bitmapMark (b : Bitmap) (index : Nat) : Except Stop Bitmap :=
  let ix := index / bitsPerWord
  let mask := wordMask (index % bitsPerWord)
  if index < b.nbits then
    if b.v ix &&& mask = 0 then .ok (b.setWord ix (b.v ix ||| mask)) else .error .bitmapMarkSet
  else .error .bitmapMarkRange

def bitmapUnmark (b : Bitmap) (index : Nat) : Except Stop Bitmap :=
  let ix := index / bitsPerWord
  let mask := wordMask (index % bitsPerWord)
  if index < b.nbits then
    if b.v ix &&& mask ≠ 0 then .ok (b.setWord ix (b.v ix &&& ~~~mask))
    else .error .bitmapUnmarkClear
  else .error .bitmapUnmarkRange

def bitmapIsset (b : Bitmap) (index : Nat) : Bool :=
  b.v (index / bitsPerWord) &&& wordMask (index % bitsPerWord) ≠ 0

/-! ## Words as sets of bits -/

theorem toNat_wordMask {o : Nat} (h : o < 8) : (wordMask o).toNat = 2 ^ o := by
  interval_cases o <;> rfl

theorem and_wordMask_eq_zero (x : UInt8) {o : Nat} (h : o < 8) :
    x &&& wordMask o = 0 ↔ x.toNat.testBit o = false := by
  rw [← UInt8.toNat_inj, UInt8.toNat_and, toNat_wordMask h, Nat.and_two_pow]
  cases x.toNat.testBit o <;> simp

theorem testBit_or_wordMask (x : UInt8) {o k : Nat} (h : o < 8) :
    (x ||| wordMask o).toNat.testBit k = (x.toNat.testBit k || decide (k = o)) := by
  rw [UInt8.toNat_or, toNat_wordMask h, Nat.testBit_or, Nat.testBit_two_pow]
  simp [eq_comm]

theorem testBit_and_not_wordMask (x : UInt8) {o k : Nat} (h : o < 8) (hk : k < 8) :
    (x &&& ~~~wordMask o).toNat.testBit k = (x.toNat.testBit k && decide (k ≠ o)) := by
  have hm : (~~~wordMask o).toNat.testBit k = decide (k ≠ o) := by
    interval_cases o <;> interval_cases k <;> rfl
  rw [UInt8.toNat_and, Nat.testBit_and, hm]

theorem eq_wordAllbits_iff (x : UInt8) : x = wordAllbits ↔ ∀ o < 8, x.toNat.testBit o = true := by
  constructor
  · intro hy o ho
    obtain rfl := hy
    interval_cases o <;> rfl
  · intro h
    rw [← UInt8.toNat_inj]
    apply Nat.eq_of_testBit_eq
    intro o
    by_cases ho : o < 8
    · rw [h o ho]
      interval_cases o <;> rfl
    · have hx : x.toNat < 2 ^ o :=
        lt_of_lt_of_le x.toNat_lt (Nat.pow_le_pow_right (by omega) (by omega))
      rw [Nat.testBit_lt_two_pow hx, Nat.testBit_lt_two_pow]
      exact lt_of_lt_of_le (by decide) (Nat.pow_le_pow_right (by omega) (Nat.le_of_not_lt ho))

namespace Bitmap

/-- Index `i` is in use. -/
def isset (b : Bitmap) (i : Nat) : Bool := (b.v (i / 8)).toNat.testBit (i % 8)

/-- The bitmap with index `i` put in use. -/
def mark (b : Bitmap) (i : Nat) : Bitmap := b.setWord (i / 8) (b.v (i / 8) ||| wordMask (i % 8))

/-- The bitmap with index `i` released. -/
def unmark (b : Bitmap) (i : Nat) : Bitmap :=
  b.setWord (i / 8) (b.v (i / 8) &&& ~~~wordMask (i % 8))

@[simp] theorem nbits_mark (b : Bitmap) (i : Nat) : (b.mark i).nbits = b.nbits := rfl
@[simp] theorem nbits_unmark (b : Bitmap) (i : Nat) : (b.unmark i).nbits = b.nbits := rfl

@[simp] theorem isset_mark (b : Bitmap) (i j : Nat) :
    (b.mark i).isset j = (b.isset j || decide (j = i)) := by
  have hi : i % 8 < 8 := Nat.mod_lt _ (by decide)
  simp only [isset, mark, setWord]
  split
  · rename_i h
    rw [testBit_or_wordMask _ hi, ← h]
    congr 1
    exact decide_eq_decide.mpr (by omega)
  · have : j ≠ i := fun h => by simp_all
    simp [this]

@[simp] theorem isset_unmark (b : Bitmap) (i j : Nat) :
    (b.unmark i).isset j = (b.isset j && decide (j ≠ i)) := by
  have hi : i % 8 < 8 := Nat.mod_lt _ (by decide)
  have hj : j % 8 < 8 := Nat.mod_lt _ (by decide)
  simp only [isset, unmark, setWord]
  split
  · rename_i h
    rw [testBit_and_not_wordMask _ hi hj, ← h]
    congr 1
    exact decide_eq_decide.mpr (by omega)
  · have : j ≠ i := fun h => by simp_all
    simp [this]

end Bitmap

open Bitmap

theorem bitmapIsset_eq (b : Bitmap) (i : Nat) : bitmapIsset b i = b.isset i := by
  have hi : i % 8 < 8 := Nat.mod_lt _ (by decide)
  simp only [bitmapIsset, isset, ne_eq, and_wordMask_eq_zero _ hi]
  cases (b.v (i / 8)).toNat.testBit (i % 8) <;> rfl

theorem bitmapMark_eq {b : Bitmap} {i : Nat} (hi : i < b.nbits) (h : b.isset i = false) :
    bitmapMark b i = .ok (b.mark i) := by
  have hm : b.v (i / 8) &&& wordMask (i % 8) = 0 :=
    (and_wordMask_eq_zero _ (Nat.mod_lt _ (by decide))).mpr h
  simp only [bitmapMark, if_pos hi]
  exact if_pos hm

theorem bitmapUnmark_eq {b : Bitmap} {i : Nat} (hi : i < b.nbits) (h : b.isset i = true) :
    bitmapUnmark b i = .ok (b.unmark i) := by
  have hm : b.v (i / 8) &&& wordMask (i % 8) ≠ 0 := fun h0 => by
    rw [and_wordMask_eq_zero _ (Nat.mod_lt _ (by decide))] at h0
    simp [isset, h0] at h
  simp only [bitmapUnmark, if_pos hi]
  exact if_pos hm

/-- What `bitmap_alloc` does: it takes the least clear index, or finds every
index of the map's words in use. The map covers whole words. -/
inductive AllocSpec (b : Bitmap) : Except Stop (Option (Nat × Bitmap)) → Prop
  | got (i : Nat) (hi : i < b.nbits) (hc : b.isset i = false) (hl : ∀ j < i, b.isset j = true) :
      AllocSpec b (.ok (some (i, b.mark i)))
  | full (hf : ∀ j < b.nbits, b.isset j = true) : AllocSpec b (.ok none)

/-- The bits after the last index are in use. -/
def Bitmap.Closed (b : Bitmap) (words : Nat) : Prop :=
  ∀ j, b.nbits ≤ j → j < words * 8 → b.isset j = true

theorem offsets_spec {b : Bitmap} {words ix : Nat} (ht : b.Closed words) (hx : ix < words)
    (hne : b.v ix ≠ wordAllbits) (hl : ∀ j < ix * 8, b.isset j = true) :
    ∀ (n offset : Nat), n + offset = 8 → (∀ o < offset, (b.v ix).toNat.testBit o = true) →
      AllocSpec b (bitmapAlloc.offsets b ix n offset) := by
  intro n
  induction n with
  | zero =>
    intro offset ho hp
    exact absurd ((eq_wordAllbits_iff _).mpr fun o h => hp o (by omega)) hne
  | succ n ih =>
    intro offset ho hp
    have ho8 : offset < 8 := by omega
    rw [bitmapAlloc.offsets]
    split
    · rename_i hc
      rw [and_wordMask_eq_zero _ ho8] at hc
      have hd : (ix * 8 + offset) / 8 = ix := by omega
      have hm : (ix * 8 + offset) % 8 = offset := by omega
      have hclear : b.isset (ix * 8 + offset) = false := by simp [isset, hd, hm, hc]
      have hmark : b.setWord ix (b.v ix ||| wordMask offset) = b.mark (ix * 8 + offset) := by
        rw [mark, hd, hm]
      -- a clear bit stands for an index
      have hlt : ix * 8 + offset < b.nbits := by
        by_contra hge
        have hset := ht (ix * 8 + offset) (by omega) (by omega)
        rw [hclear] at hset
        cases hset
      rw [if_pos (by simpa only [bitsPerWord] using hlt), hmark]
      refine .got _ (by simpa only [bitsPerWord] using hlt) hclear ?_
      intro j hj
      by_cases hjx : j < ix * 8
      · exact hl j hjx
      · have h1 : j / 8 = ix := by simp only [bitsPerWord] at hj; omega
        rw [isset, h1]
        exact hp _ (by simp only [bitsPerWord] at hj; omega)
    · rename_i hc
      rw [and_wordMask_eq_zero _ ho8] at hc
      apply ih (offset + 1) (by omega)
      intro o h
      rcases Nat.lt_succ_iff_lt_or_eq.mp h with h | rfl
      · exact hp o h
      · simpa using hc

theorem words_spec {b : Bitmap} {words : Nat} (ht : b.Closed words) (hw : b.nbits ≤ words * 8) :
    ∀ (n ix : Nat), n + ix = words → (∀ j < ix * 8, b.isset j = true) →
      AllocSpec b (bitmapAlloc.words b n ix) := by
  intro n
  induction n with
  | zero =>
    intro ix hn hl
    exact .full fun j hj => hl j (by omega)
  | succ n ih =>
    intro ix hn hl
    rw [bitmapAlloc.words]
    split
    · rename_i hne
      exact offsets_spec ht (by omega) hne hl 8 0 rfl (by omega)
    · rename_i he
      apply ih (ix + 1) (by omega)
      intro j hj
      by_cases h : j < ix * 8
      · exact hl j h
      · have hx : j / 8 = ix := by omega
        rw [isset, hx]
        exact (eq_wordAllbits_iff _).mp (not_not.mp he) _ (Nat.mod_lt _ (by decide))

theorem bitmapAlloc_closed {b : Bitmap} (ht : b.Closed (divRoundUp b.nbits bitsPerWord))
    (hb : b.nbits + 7 < 2 ^ 32) : AllocSpec b (bitmapAlloc b) := by
  refine words_spec ht ?_ _ 0 (Nat.add_zero _) (by omega)
  simp only [divRoundUp, bitsPerWord]
  omega

/-- A map of whole words has no bits after the last index. -/
theorem bitmapAlloc_spec {b : Bitmap} (h : b.nbits % 8 = 0) (hb : b.nbits + 7 < 2 ^ 32) :
    AllocSpec b (bitmapAlloc b) := by
  refine bitmapAlloc_closed (fun j hge hlt => ?_) hb
  simp only [divRoundUp, bitsPerWord] at hlt
  omega

end Os161.Sfs

import Os161.Sfs.Bitmap

/-! # Bitmaps as sets

`bitmap_create` with its allocations and assertions, and runs of the five operations: a
bitmap of `nbits` bits goes on as a set of naturals below `nbits` does. -/
namespace Os161.Sfs
open Bitmap

/-- The assertions of `bitmap_create`. -/
inductive CreateStop where
  | lastWord
  | overbits

/-- `bitmap_create`; `none` is `NULL`. -/
def bitmapCreateChecked (heap : Nat → Bool) (nbits : Nat) : Except CreateStop (Option Bitmap) :=
  let words := divRoundUp nbits bitsPerWord
  if heap 0 then
    if heap 1 then
      if nbits / bitsPerWord < words then
        let overbits := nbits - (words - 1) * bitsPerWord
        if nbits / bitsPerWord ≠ words - 1 then .error .lastWord
        else if ¬(overbits > 0 ∧ overbits < bitsPerWord) then .error .overbits
        else .ok (some (bitmapCreate nbits))
      else .ok (some (bitmapCreate nbits))
    else .ok none
  else .ok none

/-- The bits of word `ix` from `j` up. -/
theorem isset_tail (ix n j i : Nat) (b : Bitmap) (h : j + n ≤ 8) :
    (bitmapCreate.tail b ix n j).isset i =
      (b.isset i || decide (ix * 8 + j ≤ i ∧ i < ix * 8 + j + n)) := by
  induction n generalizing j b with
  | zero =>
    have hno : ¬ (ix * 8 + j ≤ i ∧ i < ix * 8 + j + 0) := by omega
    rw [bitmapCreate.tail, decide_eq_false hno, Bool.or_false]
  | succ n ih =>
    have hmark : b.setWord ix (b.v ix ||| wordMask j) = b.mark (ix * 8 + j) := by
      rw [mark, show (ix * 8 + j) / 8 = ix by omega, show (ix * 8 + j) % 8 = j by omega]
    rw [bitmapCreate.tail, hmark, ih (j + 1) _ (by omega), isset_mark, Bool.or_assoc,
      ← Bool.decide_or]
    congr 1
    exact decide_eq_decide.mpr (by omega)

theorem nbits_tail (b : Bitmap) (ix n j : Nat) :
    (bitmapCreate.tail b ix n j).nbits = b.nbits := by
  induction n generalizing b j with
  | zero => rfl
  | succ n ih => rw [bitmapCreate.tail, ih, setWord]

/-- The bitmap stands for the set `s`, and has no other bit clear. -/
structure Bitmap.Is (b : Bitmap) (n : Nat) (s : Set Nat) : Prop where
  size : b.nbits = n
  mem : ∀ i < n, b.isset i = true ↔ i ∈ s
  below : ∀ i ∈ s, i < n
  closed : b.Closed (divRoundUp n bitsPerWord)

theorem bitmapCreate_is {nbits : Nat} (h : nbits ≤ 2 ^ 31) : (bitmapCreate nbits).Is nbits ∅ := by
  have hzero (i : Nat) : (⟨nbits, fun _ => 0⟩ : Bitmap).isset i = false := by simp [isset]
  unfold bitmapCreate
  dsimp only
  split
  · next hlt =>
    simp only [divRoundUp, bitsPerWord] at hlt ⊢
    refine ⟨nbits_tail .., fun i hi => ?_, fun i hi => absurd hi (Set.notMem_empty i),
      fun i hge hlt' => ?_⟩
    · rw [isset_tail _ _ _ _ _ (by omega), hzero, Bool.false_or, decide_eq_true_eq]
      exact iff_of_false (by omega) (Set.notMem_empty i)
    · rw [nbits_tail] at hge
      dsimp only at hge
      rw [isset_tail _ _ _ _ _ (by omega), hzero, Bool.false_or, decide_eq_true_eq]
      simp only [divRoundUp, bitsPerWord] at hlt'
      omega
  · next hge =>
    refine ⟨rfl, fun i hi => ?_, fun i hi => absurd hi (Set.notMem_empty i), fun i hge' hlt => ?_⟩
    · rw [hzero]
      exact iff_of_false Bool.false_ne_true (Set.notMem_empty i)
    · simp only [divRoundUp, bitsPerWord] at hge hlt
      dsimp only at hge'
      omega

theorem bitmapCreateChecked_eq (heap : Nat → Bool) {nbits : Nat} (h0 : 0 < nbits)
    (h : nbits ≤ 2 ^ 31) : bitmapCreateChecked heap nbits =
      .ok (if heap 0 ∧ heap 1 then some (bitmapCreate nbits) else none) := by
  have hlast (hlt : nbits / bitsPerWord < divRoundUp nbits bitsPerWord) :
      nbits / bitsPerWord = divRoundUp nbits bitsPerWord - 1 ∧
        nbits - (divRoundUp nbits bitsPerWord - 1) * bitsPerWord > 0 ∧
        nbits - (divRoundUp nbits bitsPerWord - 1) * bitsPerWord < bitsPerWord := by
    simp only [divRoundUp, bitsPerWord] at hlt ⊢
    omega
  unfold bitmapCreateChecked
  cases heap 0 <;> cases heap 1 <;> try rfl
  by_cases hlt : nbits / bitsPerWord < divRoundUp nbits bitsPerWord
  · obtain ⟨hword, hbits⟩ := hlast hlt
    simp only [if_true, and_self]
    rw [if_pos hlt, if_neg (not_not.mpr hword), if_neg (not_not.mpr hbits)]
  · simp only [if_true, and_self]
    rw [if_neg hlt]

namespace Bitmap.Is

variable {b : Bitmap} {n : Nat} {s : Set Nat}

theorem clear (h : b.Is n s) {i : Nat} (hi : i < n) : b.isset i = false ↔ i ∉ s := by
  rw [← h.mem i hi, Bool.not_eq_true]

theorem mark (h : b.Is n s) {i : Nat} (hi : i < n) : (b.mark i).Is n (insert i s) where
  size := h.size
  mem j hj := by
    rw [isset_mark, Bool.or_eq_true, h.mem j hj, decide_eq_true_eq, Set.mem_insert_iff, or_comm]
  below j hj := by
    rcases Set.mem_insert_iff.mp hj with rfl | hj
    · exact hi
    · exact h.below j hj
  closed j hge hlt := by
    rw [isset_mark, h.closed j hge hlt, Bool.true_or]

theorem unmark (h : b.Is n s) {i : Nat} (hi : i < n) : (b.unmark i).Is n (s \ {i}) where
  size := h.size
  mem j hj := by
    rw [isset_unmark, Bool.and_eq_true, h.mem j hj, decide_eq_true_eq]
    rfl
  below j hj := h.below j hj.1
  closed j hge hlt := by
    have hne : j ≠ i := by
      have hn := h.size
      rw [nbits_unmark] at hge
      omega
    rw [isset_unmark, h.closed j hge hlt, decide_eq_true hne, Bool.and_true]

end Bitmap.Is

/-! ## Runs -/

inductive BitCall where
  | alloc
  | mark (index : Nat)
  | unmark (index : Nat)
  | isset (index : Nat)

/-- What a call hands back. -/
inductive BitAnswer where
  | done
  | index (i : Nat)
  | enospc
  | set (b : Bool)

def BitCall.perform (b : Bitmap) : BitCall → Except Stop (BitAnswer × Bitmap)
  | .alloc => (bitmapAlloc b).map fun
    | some (i, b) => (.index i, b)
    | none => (.enospc, b)
  | .mark i => (bitmapMark b i).map fun b => (.done, b)
  | .unmark i => (bitmapUnmark b i).map fun b => (.done, b)
  | .isset i => .ok (.set (bitmapIsset b i), b)

/-- What a call does to a set of naturals below `n`. -/
inductive SetStep (n : Nat) (s : Set Nat) : BitCall → BitAnswer → Set Nat → Prop
  | alloc {i : Nat} : i < n → i ∉ s → (∀ j < i, j ∈ s) → SetStep n s .alloc (.index i) (insert i s)
  | full : (∀ i < n, i ∈ s) → SetStep n s .alloc .enospc s
  | mark (i : Nat) : SetStep n s (.mark i) .done (insert i s)
  | unmark (i : Nat) : SetStep n s (.unmark i) .done (s \ {i})
  | isset (i : Nat) (b : Bool) : (b = true ↔ i ∈ s) → SetStep n s (.isset i) (.set b) s

/-- Marks go to clear bits, unmarks to set ones. -/
def BitCall.Allowed (n : Nat) (s : Set Nat) : BitCall → Prop
  | .alloc => True
  | .mark i => i < n ∧ i ∉ s
  | .unmark i => i < n ∧ i ∈ s
  | .isset i => i < n

/-- The bitmap goes on as the set does, and the bits after the last index stay set. -/
def BitRefines (n : Nat) : Bitmap → Set Nat → List BitCall → Prop
  | b, s, [] => b.Is n s
  | b, s, c :: cs =>
    b.Is n s ∧ (c.Allowed n s → ∃ a b' s', c.perform b = .ok (a, b') ∧ SetStep n s c a s' ∧
      BitRefines n b' s' cs)

theorem perform_is {b : Bitmap} {n : Nat} {s : Set Nat} (h : b.Is n s) (hn : n ≤ 2 ^ 31)
    {c : BitCall} (hc : c.Allowed n s) :
    ∃ a b' s', c.perform b = .ok (a, b') ∧ SetStep n s c a s' ∧ b'.Is n s' := by
  cases c with
  | alloc =>
    have hspec := bitmapAlloc_closed (b := b) (by rw [h.size]; exact h.closed)
      (by rw [h.size]; omega)
    simp only [BitCall.perform]
    generalize bitmapAlloc b = r at hspec
    cases hspec with
    | got i hi hclear hl =>
      rw [h.size] at hi
      refine ⟨_, _, _, rfl, .alloc hi ((h.clear hi).mp hclear) fun j hj => ?_, h.mark hi⟩
      exact (h.mem j (by omega)).mp (hl j hj)
    | full hf =>
      rw [h.size] at hf
      exact ⟨_, _, _, rfl, .full fun i hi => (h.mem i hi).mp (hf i hi), h⟩
  | mark i =>
    obtain ⟨hi, hmem⟩ := hc
    refine ⟨_, _, _, ?_, .mark i, h.mark hi⟩
    rw [BitCall.perform, bitmapMark_eq (by rw [h.size]; exact hi) ((h.clear hi).mpr hmem)]
    rfl
  | unmark i =>
    obtain ⟨hi, hmem⟩ := hc
    refine ⟨_, _, _, ?_, .unmark i, h.unmark hi⟩
    rw [BitCall.perform, bitmapUnmark_eq (by rw [h.size]; exact hi) ((h.mem i hi).mpr hmem)]
    rfl
  | isset i =>
    refine ⟨_, _, _, rfl, .isset i _ ?_, h⟩
    rw [bitmapIsset_eq]
    exact h.mem i hc

theorem refines_of_is {n : Nat} (hn : n ≤ 2 ^ 31) (cs : List BitCall) {b : Bitmap}
    {s : Set Nat} (h : b.Is n s) : BitRefines n b s cs := by
  induction cs generalizing b s with
  | nil => exact h
  | cons c cs ih =>
    refine ⟨h, fun hc => ?_⟩
    obtain ⟨a, b', s', hp, hstep, h'⟩ := perform_is h hn hc
    exact ⟨a, b', s', hp, hstep, ih h'⟩

/-- A new bitmap is the empty set, and goes on as a set whatever is called. -/
theorem bitmap_refines_set (heap : Nat → Bool) (nbits : Nat) (h0 : 0 < nbits)
    (h : nbits ≤ 2 ^ 31) :
    ∃ r, bitmapCreateChecked heap nbits = .ok r ∧
      ∀ b, r = some b → ∀ cs : List BitCall, BitRefines nbits b ∅ cs := by
  refine ⟨_, bitmapCreateChecked_eq heap h0 h, fun b hb cs => ?_⟩
  split at hb
  · obtain rfl := Option.some.inj hb
    exact refines_of_is h cs (bitmapCreate_is h)
  · cases hb

theorem bitmap_refines_set_five :
    ∃ r, bitmapCreateChecked (fun _ => true) 5 = .ok r ∧
      ∀ b, r = some b → ∀ cs : List BitCall, BitRefines 5 b ∅ cs :=
  bitmap_refines_set (fun _ => true) 5 (by decide) (by decide)

end Os161.Sfs

import Mathlib.Data.List.Basic
import Mathlib.Data.List.Nodup
import Mathlib.Data.List.Perm.Subperm
import Os161.Vm.Kheap

/-! # The parts of the subpage allocator

The bitmap of pagerefs, the blocks of a page and the free list through them. -/
namespace Os161.Vm.Kheap
open Os161.Lib

variable {h h' : Heap}

/-! ## The bitmap -/

theorem inuse_update (h : Heap) {p k : Nat} (words : Nat → BitVec 32) (w : BitVec 32)
    (hw : words = Function.update h.pagerefsInuse (p / 32) w) :
    ({ h with pagerefsInuse := words } : Heap).inuse k =
      if k / 32 = p / 32 then w.getLsbD (k % 32) else h.inuse k := by
  subst hw
  show (Function.update h.pagerefsInuse (p / 32) w (k / 32)).getLsbD (k % 32) = _
  rw [Function.update_apply]
  split
  · rfl
  · rfl

theorem place_eq {p k : Nat} (h : k / 32 = p / 32) : p % 32 = k % 32 ↔ k = p := by omega

/-- Either all words are full, or a pageref that is not in use becomes one that is. -/
theorem allocpageref_spec (h : Heap) : h.allocpageref = some (none, h) ∨
    ∃ p words, h.allocpageref = some (some p, { h with pagerefsInuse := words }) ∧
      p < npagerefs ∧ h.inuse p = false ∧
      ∀ k, ({ h with pagerefsInuse := words } : Heap).inuse k = (decide (k = p) || h.inuse k) := by
  unfold Heap.allocpageref
  split
  · exact .inl rfl
  · rename_i i hi
    have hfull : h.pagerefsInuse i ≠ 0xffffffff#32 := by simpa using List.find?_some hi
    have hi8 : i < 8 := List.mem_range.mp (List.mem_of_find?_eq_some hi)
    split
    · rename_i hnone
      refine absurd (BitVec.eq_of_getLsbD_eq fun j hj => ?_) hfull
      have hset := List.find?_eq_none.mp hnone j (List.mem_range.mpr hj)
      have hones : (0xffffffff#32).getLsbD j = true := by
        have hall : ∀ j < 32, (0xffffffff#32).getLsbD j = true := by decide
        exact hall j hj
      rw [hones]
      by_contra hbit
      refine hset ?_
      rw [BitVec.and_twoPow, if_neg hbit]
      rfl
    · rename_i j hj
      have hj32 : j < 32 := List.mem_range.mp (List.mem_of_find?_eq_some hj)
      have hclear : h.pagerefsInuse i &&& BitVec.twoPow 32 j = 0#32 := by
        simpa using List.find?_some hj
      have hbit : (h.pagerefsInuse i).getLsbD j = false := by
        have hz := congrArg (fun w => w.getLsbD j) hclear
        simpa [BitVec.getLsbD_twoPow, hj32] using hz
      have hdiv : (i * 32 + j) / 32 = i := by omega
      have hmod : (i * 32 + j) % 32 = j := by omega
      refine .inr ⟨i * 32 + j, _, rfl, ?_, ?_, fun k => ?_⟩
      · show i * 32 + j < 256
        omega
      · rw [Heap.inuse, hdiv, hmod, hbit]
      · rw [inuse_update h (p := i * 32 + j) _ _ (by rw [hdiv])]
        split
        · rename_i hk
          rw [BitVec.getLsbD_or, BitVec.getLsbD_twoPow, Heap.inuse, hk, hdiv]
          have hpl := place_eq hk
          rw [hmod] at hpl
          simp only [hj32, decide_true, Bool.true_and, hpl, Bool.or_comm]
        · rename_i hk
          have hne : k ≠ i * 32 + j := fun he => hk (he ▸ rfl)
          simp only [hne, decide_false, Bool.false_or]

theorem freepageref_spec {p : Nat} (hp : p < npagerefs) (hin : h.inuse p = true) :
    ∃ words, h.freepageref p = some { h with pagerefsInuse := words } ∧
      ∀ k, ({ h with pagerefsInuse := words } : Heap).inuse k =
        (decide (k ≠ p) && h.inuse k) := by
  have hset : h.pagerefsInuse (p / 32) &&& BitVec.twoPow 32 (p % 32) ≠ 0#32 := by
    have hbit : (h.pagerefsInuse (p / 32)).getLsbD (p % 32) = true := hin
    rw [BitVec.and_twoPow, if_pos hbit]
    intro hz
    have hzero := congrArg (fun w => w.getLsbD (p % 32)) hz
    have hlt : p % 32 < 32 := Nat.mod_lt _ (by decide)
    simp [hlt] at hzero
  refine ⟨_, by rw [Heap.freepageref, if_pos hp, if_pos hset], fun k => ?_⟩
  rw [inuse_update h (p := p) _ _ rfl]
  have hlt : k % 32 < 32 := Nat.mod_lt _ (by decide)
  have hlt' : p % 32 < 32 := Nat.mod_lt _ (by decide)
  split
  · rename_i hk
    rw [BitVec.getLsbD_and, BitVec.getLsbD_not, BitVec.getLsbD_twoPow, Heap.inuse, hk]
    simp only [hlt, hlt', decide_true, Bool.true_and, place_eq hk, ne_eq, decide_not, Bool.and_comm]
  · rename_i hk
    have hne : k ≠ p := fun he => hk (he ▸ rfl)
    simp only [hne, ne_eq, not_false_eq_true, decide_true, Bool.true_and]

/-! ## Blocks -/

/-- The size classes divide a page. -/
structure SizeClass (size : Nat) : Prop where
  pos : 0 < size
  low : 16 ≤ size
  dvd : 4096 / size * size = 4096
  four : size % 16 = 0

theorem sizes_class {b : Nat} (hb : b < nsizes) : SizeClass (sizes b) := by
  have hall : ∀ b < 8, 0 < sizes b ∧ 16 ≤ sizes b ∧ 4096 / sizes b * sizes b = 4096 ∧
      sizes b % 16 = 0 := by decide
  obtain ⟨h1, h2, h3, h4⟩ := hall b hb
  exact ⟨h1, h2, h3, h4⟩

structure IsBlock (page size a : Nat) : Prop where
  low : page ≤ a
  high : a < page + pageSize
  aligned : (a - page) % size = 0

theorem isBlock_iff {page size a : Nat} (hs : SizeClass size) :
    IsBlock page size a ↔ ∃ k < pageSize / size, a = page + k * size := by
  have hdvd := hs.dvd
  constructor
  · intro h
    obtain ⟨k, hk⟩ := Nat.dvd_of_mod_eq_zero h.aligned
    have hlow := h.low
    have hhigh := h.high
    have hlt : k * size < 4096 / size * size := by
      rw [hdvd, Nat.mul_comm, ← hk]
      simp only [pageSize] at hhigh
      omega
    refine ⟨k, Nat.lt_of_mul_lt_mul_right hlt, ?_⟩
    rw [Nat.mul_comm, ← hk]
    omega
  · intro hx
    obtain ⟨k, hk, rfl⟩ := hx
    have hlt : (k + 1) * size ≤ 4096 / size * size := Nat.mul_le_mul_right size hk
    rw [hdvd, Nat.succ_mul] at hlt
    have hpos := hs.pos
    refine ⟨Nat.le_add_right _ _, ?_, ?_⟩
    · simp only [pageSize]
      omega
    · rw [Nat.add_sub_cancel_left, Nat.mul_mod_left]

/-- A block is as a whole in its page. -/
theorem IsBlock.end_le {page size a : Nat} (h : IsBlock page size a) (hs : SizeClass size) :
    a + size ≤ page + pageSize := by
  obtain ⟨k, hk, rfl⟩ := (isBlock_iff hs).mp h
  have hlt : (k + 1) * size ≤ 4096 / size * size := Nat.mul_le_mul_right size hk
  rw [hs.dvd, Nat.succ_mul] at hlt
  simp only [pageSize]
  omega

/-- Blocks of a page do not overlap. -/
theorem IsBlock.apart {page size a a' : Nat} (h : IsBlock page size a)
    (h' : IsBlock page size a') (hs : SizeClass size) (hne : a ≠ a') :
    a + size ≤ a' ∨ a' + size ≤ a := by
  obtain ⟨k, -, rfl⟩ := (isBlock_iff hs).mp h
  obtain ⟨k', -, rfl⟩ := (isBlock_iff hs).mp h'
  rcases Nat.lt_trichotomy k k' with hlt | heq | hgt
  · have hle : (k + 1) * size ≤ k' * size := Nat.mul_le_mul_right size hlt
    rw [Nat.succ_mul] at hle
    exact .inl (by omega)
  · exact absurd (congrArg (fun k => page + k * size) heq) hne
  · have hle : (k' + 1) * size ≤ k * size := Nat.mul_le_mul_right size hgt
    rw [Nat.succ_mul] at hle
    exact .inr (by omega)

/-- A page has no more blocks than `PAGE_SIZE / size`. -/
theorem blocks_length {page size : Nat} {l : List Nat} (hs : SizeClass size) (hn : l.Nodup)
    (hl : ∀ a ∈ l, IsBlock page size a) : l.length ≤ pageSize / size := by
  have hsub : l ⊆ (List.range (pageSize / size)).map fun k => page + k * size := by
    intro a ha
    obtain ⟨k, hk, rfl⟩ := (isBlock_iff hs).mp (hl a ha)
    exact List.mem_map.mpr ⟨k, List.mem_range.mpr hk, rfl⟩
  have hle := (hn.subperm hsub).length_le
  rwa [List.length_map, List.length_range] at hle

/-! ## The free list -/

def nextFree (mem : Nat → Nat) (a : Nat) : Option Nat := if mem a = 0 then none else some (mem a)

/-- The blocks of a page from the last one down. -/
def down (fla size : Nat) : Nat → List Nat
  | 0 => [fla]
  | n + 1 => (fla + (n + 1) * size) :: down fla size n

theorem mem_down {fla size n a : Nat} : a ∈ down fla size n ↔ ∃ k ≤ n, a = fla + k * size := by
  induction n with
  | zero =>
    rw [down, List.mem_singleton]
    constructor
    · intro he
      exact ⟨0, Nat.le_refl _, by omega⟩
    · intro hx
      obtain ⟨k, hk, rfl⟩ := hx
      rw [Nat.le_zero.mp hk]
      omega
  | succ n ih =>
    rw [down, List.mem_cons, ih]
    constructor
    · intro hx
      rcases hx with rfl | ⟨k, hk, rfl⟩
      · exact ⟨n + 1, Nat.le_refl _, rfl⟩
      · exact ⟨k, Nat.le_succ_of_le hk, rfl⟩
    · intro hx
      obtain ⟨k, hk, rfl⟩ := hx
      rcases Nat.lt_or_eq_of_le hk with hlt | rfl
      · exact .inr ⟨k, Nat.le_of_lt_succ hlt, rfl⟩
      · exact .inl rfl

theorem down_length (fla size n : Nat) : (down fla size n).length = n + 1 := by
  induction n with
  | zero => rfl
  | succ n ih => rw [down, List.length_cons, ih]

theorem above_down {fla size n : Nat} (hs : 0 < size) :
    fla + (n + 1) * size ∉ down fla size n := by
  intro hm
  obtain ⟨k, hk, he⟩ := mem_down.mp hm
  have hlt : k * size < (n + 1) * size := Nat.mul_lt_mul_of_pos_right (Nat.lt_succ_of_le hk) hs
  omega

theorem down_nodup {fla size : Nat} (hs : 0 < size) (n : Nat) : (down fla size n).Nodup := by
  induction n with
  | zero => exact List.nodup_singleton _
  | succ n ih => exact List.nodup_cons.mpr ⟨above_down hs, ih⟩

theorem thread_spec {fla size : Nat} (hs : 0 < size) (hfla : 0 < fla) (n : Nat)
    (mem : Nat → Nat) : ∃ mem', Heap.thread fla size n mem = some mem' ∧
      Linked (nextFree mem') (some (fla + n * size)) (down fla size n) ∧
      ∀ x, x ∉ down fla size n → mem' x = mem x := by
  induction n with
  | zero =>
    refine ⟨_, rfl, ⟨by rw [Nat.zero_mul, Nat.add_zero], ?_⟩, fun x hx => ?_⟩
    · show nextFree (Function.update mem fla 0) fla = none
      rw [nextFree, Function.update_self, if_pos rfl]
    · exact Function.update_of_ne (fun he => hx (List.mem_singleton.mpr he)) _ _
  | succ n ih =>
    obtain ⟨mem', hmem, hl, hsame⟩ := ih
    have hne : fla + (n + 1) * size ≠ fla + n * size := by
      rw [Nat.succ_mul]
      omega
    refine ⟨_, by rw [Heap.thread, hmem]; exact if_pos hne, ⟨rfl, ?_⟩, fun x hx => ?_⟩
    · have hnz : fla + n * size ≠ 0 := by omega
      have hnext : nextFree (Function.update mem' (fla + (n + 1) * size) (fla + n * size))
          (fla + (n + 1) * size) = some (fla + n * size) := by
        rw [nextFree, Function.update_self, if_neg hnz]
      rw [hnext]
      refine hl.congr fun a ha => ?_
      have ha' : a ≠ fla + (n + 1) * size := fun he => above_down hs (he ▸ ha)
      rw [nextFree, nextFree, Function.update_of_ne ha']
    · rw [down, List.mem_cons, not_or] at hx
      rw [Function.update_of_ne hx.1, hsame x hx.2]

end Os161.Vm.Kheap

import Mathlib.Data.List.Pairwise
import Os161.Lib.Runs
import Os161.Vm.Spaces

/-! # Isolation of address spaces

An address that `vm_fault` accepts is in one of three slots of the space, at an offset that is
inside the frames of the slot. A space and its copy have the same slots in different frames. -/
namespace Os161.Vm.Spaces
open Os161.Runs

variable {as : Addrspace} {s s' : State} {f : Frames} {a b : Nat}

/-! ## What a run is to satisfy -/

inductive Slot where
  | one | two | stack
  deriving DecidableEq

/-- The frames of a slot. -/
def Slot.range (as : Addrspace) : Slot → Range
  | .one => ⟨as.asPbase1, as.asNpages1⟩
  | .two => ⟨as.asPbase2, as.asNpages2⟩
  | .stack => ⟨as.asStackpbase, dumbvmStackpages⟩

/-- The frames `ram_stealmem` hands out are pages, and those of two calls have nothing in
common. -/
structure Apart (obtained : List Obtained) : Prop where
  aligned : ∀ o ∈ obtained, o.range.paddr &&& pageFrame = o.range.paddr
  disjoint : obtained.Pairwise fun o o' => o.range.Disjoint o'.range

def Loaded (as : Addrspace) : Prop := ∀ k : Slot, (k.range as).paddr ≠ 0

def FaultResult.frame : FaultResult → Option UInt32
  | .error _ => none
  | .install _ elo => some (elo &&& tlbloPpage)

/-- Where the translation that `vm_fault` installs for an address leads. -/
def translate (as : Addrspace) (faultaddress : UInt32) : Option UInt32 :=
  (vmFault (some as) vmFaultRead faultaddress).bind FaultResult.frame

/-- Every address translates to another frame with the same contents, and those of the old space
are as they were. -/
structure Copy.Faithful (c : Copy) : Prop where
  translated : ∀ va p, translate c.old va = some p → ∃ p', translate c.new va = some p' ∧ p' ≠ p ∧
    ∀ i < pageSize, c.after (paddrToKvaddr p' + i) = c.before (paddrToKvaddr p + i) ∧
      c.after (paddrToKvaddr p + i) = c.before (paddrToKvaddr p + i)

structure Isolated (s : State) : Prop where
  installed : ∀ e ∈ s.installed, ∃ o ∈ s.obtained, o.owner = e.space ∧
    ∀ i < pageSize, o.range.Has ((e.elo &&& tlbloPpage) + i)
  own : ∀ a as, s.space a = some as → ∀ k : Slot, (k.range as).paddr ≠ 0 →
    ⟨a, k.range as⟩ ∈ s.obtained
  disjoint : ∀ a b as bs, a ≠ b → s.space a = some as → s.space b = some bs →
    ∀ j k : Slot, (j.range as).paddr ≠ 0 → (k.range bs).paddr ≠ 0 →
      (j.range as).Disjoint (k.range bs)
  copies : ∀ c ∈ s.copies, Loaded c.old → c.Faithful

/-- Regions are defined before the space is given its frames. -/
def Proper (s : State) : Act → Prop
  | .asDefineRegion a _ _ => ∀ as, s.space a = some as → ∀ k : Slot, (k.range as).paddr = 0
  | _ => True

/-! ## The dispatch -/

def Slot.vbase (as : Addrspace) : Slot → UInt32
  | .one => as.asVbase1
  | .two => as.asVbase2
  | .stack => userstack - dumbvmStackpages * pageSize

def slotOf (as : Addrspace) (fa : UInt32) : Option Slot :=
  if Slot.vbase as .one ≤ fa ∧ fa < Slot.vbase as .one + as.asNpages1 * pageSize then some .one
  else if Slot.vbase as .two ≤ fa ∧ fa < Slot.vbase as .two + as.asNpages2 * pageSize then some .two
  else if Slot.vbase as .stack ≤ fa ∧ fa < Slot.vbase as .stack + dumbvmStackpages * pageSize then
    some .stack
  else none

theorem paddrOf_eq (as : Addrspace) (fa : UInt32) :
    paddrOf as fa = (slotOf as fa).map fun k => fa - k.vbase as + (k.range as).paddr := by
  have htop : userstack - dumbvmStackpages * pageSize + dumbvmStackpages * pageSize = userstack :=
    rfl
  simp only [paddrOf, slotOf, Slot.vbase, htop, ge_iff_le]
  split
  · rfl
  · split
    · rfl
    · split
      · rfl
      · rfl

theorem slotOf_spec {fa : UInt32} {k : Slot} (h : slotOf as fa = some k) :
    k.vbase as ≤ fa ∧ fa < k.vbase as + (k.range as).npages * pageSize := by
  unfold slotOf at h
  split at h
  · cases h
    assumption
  · split at h
    · cases h
      assumption
    · split at h
      · cases h
        assumption
      · cases h

/-- The page counts are small enough not to wrap around as bytes. -/
def Small (as : Addrspace) : Prop := ∀ k : Slot, (k.range as).npages.toNat < 1048576

theorem toNat_pageFrame_eq {x : UInt32} (h : x &&& pageFrame = x) : x.toNat % 4096 = 0 := by
  have hx := toNat_and_pageFrame x
  rw [h] at hx
  omega

theorem pageFrame_idem (x : UInt32) : x &&& pageFrame &&& pageFrame = x &&& pageFrame := by
  apply UInt32.toNat_inj.mp
  rw [toNat_and_pageFrame, toNat_and_pageFrame, Nat.mul_div_cancel _ (by decide)]

/-- A page of a slot is as a whole inside it. -/
theorem offset_spec {fa : UInt32} {k : Slot} (hs : Small as) (hfa : fa &&& pageFrame = fa)
    (hv : k.vbase as &&& pageFrame = k.vbase as) (h : slotOf as fa = some k) :
    (fa - k.vbase as).toNat + 4096 ≤ (k.range as).npages.toNat * 4096 := by
  obtain ⟨hle, hlt⟩ := slotOf_spec h
  have hfa' := toNat_pageFrame_eq hfa
  have hv' := toNat_pageFrame_eq hv
  have hk := hs k
  have hle' := UInt32.le_iff_toNat_le.mp hle
  have hlt' := UInt32.lt_iff_toNat_lt.mp hlt
  rw [UInt32.toNat_add, UInt32.toNat_mul, pageSize_toNat] at hlt'
  rw [UInt32.toNat_sub_of_le _ _ hle]
  omega

theorem has_of_offset {r : Range} {off i : UInt32} (h : off.toNat + 4096 ≤ r.npages.toNat * 4096)
    (hi : i < pageSize) : r.Has (off + r.paddr + i) := by
  have hi' := UInt32.lt_iff_toNat_lt.mp hi
  have hoff : off + r.paddr + i - r.paddr = off + i := by grind
  rw [Range.Has, hoff, UInt32.toNat_add]
  rw [pageSize_toNat] at hi'
  omega

/-! ## Faults -/

theorem setUp_spec (h : setUp as) (k : Slot) :
    k.vbase as &&& pageFrame = k.vbase as ∧ (k.range as).paddr ≠ 0 := by
  simp only [setUp, Bool.and_eq_true, decide_eq_true_eq] at h
  cases k with
  | one =>
    exact ⟨by simpa [Slot.vbase] using h.1.1.1.1.2,
      by simpa [Slot.range] using h.1.1.1.1.1.1.1.1.1.1.2⟩
  | two =>
    exact ⟨by simpa [Slot.vbase] using h.1.1.2, by simpa [Slot.range] using h.1.1.1.1.1.1.1.2⟩
  | stack =>
    have hstack : (userstack - dumbvmStackpages * pageSize) &&& pageFrame =
      userstack - dumbvmStackpages * pageSize := by decide
    exact ⟨hstack, by simpa [Slot.range] using h.1.1.1.1.1.2⟩

theorem elo_ppage {paddr : UInt32} (h : paddr &&& pageFrame = paddr) :
    (paddr ||| tlbloDirty ||| tlbloValid) &&& tlbloPpage = paddr := by
  apply UInt32.toBitVec_inj.mp
  have h' := congrArg UInt32.toBitVec h
  rw [UInt32.toBitVec_and] at h'
  rw [UInt32.toBitVec_and, UInt32.toBitVec_or, UInt32.toBitVec_or, BitVec.and_or_distrib_right,
    BitVec.and_or_distrib_right]
  have hd : tlbloDirty.toBitVec &&& tlbloPpage.toBitVec = 0#32 := rfl
  have hv : tlbloValid.toBitVec &&& tlbloPpage.toBitVec = 0#32 := rfl
  rw [hd, hv, BitVec.or_zero, BitVec.or_zero]
  exact h'

/-- An installed translation: the page is in a slot of the space. -/
structure Hit (as : Addrspace) (fa : UInt32) (k : Slot) (paddr : UInt32) : Prop where
  setUp : setUp as
  aligned : fa &&& pageFrame = fa
  slot : slotOf as fa = some k
  leads : paddr = fa - k.vbase as + (k.range as).paddr
  page : paddr &&& pageFrame = paddr

theorem vmFault_hit {faulttype va ehi elo : UInt32}
    (h : vmFault (some as) faulttype va = some (.install ehi elo)) :
    ∃ k, Hit as (va &&& pageFrame) k (elo &&& tlbloPpage) := by
  simp only [vmFault] at h
  split at h
  · cases h
  · split at h
    · cases h
    · split at h
      · rename_i hset
        split at h
        · cases h
        · rename_i paddr hp
          split at h
          · rename_i hpage
            cases h
            rw [paddrOf_eq] at hp
            obtain ⟨k, hk, hpaddr⟩ := Option.map_eq_some_iff.mp hp
            refine ⟨k, hset, pageFrame_idem va, hk, ?_, ?_⟩
            · rw [elo_ppage hpage, hpaddr]
            · rw [elo_ppage hpage, hpage]
          · cases h
      · cases h

theorem Hit.inside {fa paddr : UInt32} {k : Slot} (h : Hit as fa k paddr) (hs : Small as) :
    ∀ i < pageSize, (k.range as).Has (paddr + i) := by
  intro i hi
  rw [h.leads]
  exact has_of_offset (offset_spec hs h.aligned (setUp_spec h.setUp k).1 h.slot) hi

/-- A store faults as a load does. -/
theorem vmFault_access {faulttype va : UInt32}
    (ht : faulttype = vmFaultRead ∨ faulttype = vmFaultWrite) :
    vmFault (some as) faulttype va = vmFault (some as) vmFaultRead va := by
  rcases ht with rfl | rfl
  · rfl
  · rfl

theorem Hit.vmFault {faulttype va paddr : UInt32} {k : Slot} (h : Hit as (va &&& pageFrame) k paddr)
    (ht : faulttype = vmFaultRead ∨ faulttype = vmFaultWrite) :
    vmFault (some as) faulttype va =
      some (.install (va &&& pageFrame) (paddr ||| tlbloDirty ||| tlbloValid)) := by
  have hp : paddrOf as (va &&& pageFrame) = some paddr := by
    rw [paddrOf_eq, h.slot, h.leads]
    rfl
  have hr : vmFaultRead ≠ vmFaultReadonly := by decide
  rw [vmFault_access ht]
  simp only [Spaces.vmFault, if_neg hr, ne_eq, not_true_eq_false, false_and, if_false, h.setUp,
    if_true, hp, h.page]

theorem Hit.translate {va paddr : UInt32} {k : Slot} (h : Hit as (va &&& pageFrame) k paddr) :
    translate as va = some paddr := by
  have hframe : FaultResult.frame (.install (va &&& pageFrame)
      (paddr ||| tlbloDirty ||| tlbloValid)) = some paddr := congrArg some (elo_ppage h.page)
  rw [Spaces.translate, h.vmFault (.inl rfl), Option.bind_some, hframe]

theorem hit_of_translate {va paddr : UInt32} (h : translate as va = some paddr) :
    ∃ k, Hit as (va &&& pageFrame) k paddr := by
  obtain ⟨r, hr, hframe⟩ := Option.bind_eq_some_iff.mp h
  cases r with
  | error e => cases hframe
  | install ehi elo =>
    cases hframe
    exact vmFault_hit hr

/-! ## Preparing a space -/

/-- The slots of two spaces differ in their frames only. -/
structure Alike (as bs : Addrspace) : Prop where
  vbase1 : bs.asVbase1 = as.asVbase1
  npages1 : bs.asNpages1 = as.asNpages1
  vbase2 : bs.asVbase2 = as.asVbase2
  npages2 : bs.asNpages2 = as.asNpages2

structure Prepared (as : Addrspace) (f : Frames) (r : Option Errno × Addrspace × Frames) :
    Prop where
  alike : Alike as r.2.1
  grown : f.obtained <:+ r.2.2.obtained
  own : ∀ k : Slot, (k.range r.2.1).paddr ≠ 0 → ⟨f.owner, k.range r.2.1⟩ ∈ r.2.2.obtained
  loaded : r.1 = none → r.2.2.obtained =
    ⟨f.owner, Slot.stack.range r.2.1⟩ :: ⟨f.owner, Slot.two.range r.2.1⟩ ::
      ⟨f.owner, Slot.one.range r.2.1⟩ :: f.obtained
  bases : r.1 = none → Loaded r.2.1

theorem asPrepareLoad_spec {r : Option Errno × Addrspace × Frames}
    (h : asPrepareLoad Frames.getppages as f = some r) : Prepared as f r := by
  simp only [asPrepareLoad, Frames.getppages] at h
  split at h
  · rename_i hzero
    split at h
    · rename_i h1
      cases h
      refine ⟨⟨rfl, rfl, rfl, rfl⟩, ?_, fun k hk => absurd ?_ hk, ?_, ?_⟩
      · exact List.suffix_refl _
      · cases k with
        | one => exact h1
        | two => exact hzero.2.1
        | stack => exact hzero.2.2
      · intro he
        cases he
      · intro he
        cases he
    · rename_i h1
      split at h
      · rename_i h2
        cases h
        refine ⟨⟨rfl, rfl, rfl, rfl⟩, ?_, fun k hk => ?_, ?_, ?_⟩
        · exact List.suffix_cons _ _
        · cases k with
          | one => exact List.mem_cons_self
          | two => exact absurd h2 hk
          | stack => exact absurd hzero.2.2 hk
        · intro he
          cases he
        · intro he
          cases he
      · rename_i h2
        split at h
        · rename_i h3
          cases h
          refine ⟨⟨rfl, rfl, rfl, rfl⟩, ?_, fun k hk => ?_, ?_, ?_⟩
          · exact (List.suffix_cons _ _).trans (List.suffix_cons _ _)
          · cases k with
            | one => exact List.mem_cons_of_mem _ List.mem_cons_self
            | two => exact List.mem_cons_self
            | stack => exact absurd h3 hk
          · intro he
            cases he
          · intro he
            cases he
        · rename_i h3
          cases h
          refine ⟨⟨rfl, rfl, rfl, rfl⟩, ?_, fun k _ => ?_, fun _ => ?_, fun _ k => ?_⟩
          · exact (List.suffix_cons _ _).trans
              ((List.suffix_cons _ _).trans (List.suffix_cons _ _))
          · cases k with
            | one => exact List.mem_cons_of_mem _ (List.mem_cons_of_mem _ List.mem_cons_self)
            | two => exact List.mem_cons_of_mem _ List.mem_cons_self
            | stack => exact List.mem_cons_self
          · rfl
          · cases k with
            | one => exact h1
            | two => exact h2
            | stack => exact h3
  · cases h

/-! ## Copies -/

theorem Alike.vbase {bs : Addrspace} (h : Alike as bs) (k : Slot) : k.vbase bs = k.vbase as := by
  cases k with
  | one => exact h.vbase1
  | two => exact h.vbase2
  | stack => rfl

theorem Alike.npages {bs : Addrspace} (h : Alike as bs) (k : Slot) :
    (k.range bs).npages = (k.range as).npages := by
  cases k with
  | one => exact h.npages1
  | two => exact h.npages2
  | stack => rfl

theorem Alike.slotOf {bs : Addrspace} (h : Alike as bs) (fa : UInt32) :
    slotOf bs fa = slotOf as fa := by
  simp only [Spaces.slotOf, h.vbase, h.npages1, h.npages2]

theorem Alike.setUp {bs : Addrspace} (h : Alike as bs) (hs : setUp as) (hl : Loaded bs)
    (ha : ∀ k : Slot, (k.range bs).paddr &&& pageFrame = (k.range bs).paddr) : setUp bs := by
  have h1 := hl .one
  have h2 := hl .two
  have h3 := hl .stack
  have ha1 := ha .one
  have ha2 := ha .two
  have ha3 := ha .stack
  simp only [Slot.range] at h1 h2 h3 ha1 ha2 ha3
  simp only [Spaces.setUp, Bool.and_eq_true, decide_eq_true_eq] at hs ⊢
  simp only [h.vbase1, h.npages1, h.vbase2, h.npages2]
  grind

/-- The frames of the new space are apart from each other and from those of the old one. -/
structure Fresh (old new : Addrspace) : Prop where
  old : ∀ j k : Slot, (j.range new).Disjoint (k.range old)
  new : ∀ j k : Slot, j ≠ k → (j.range new).Disjoint (k.range new)

theorem kvaddr_add (p i : UInt32) : paddrToKvaddr p + i = paddrToKvaddr (p + i) := by
  unfold paddrToKvaddr
  grind

section Memmove

variable {mem : UInt32 → UInt8} {d src n x : UInt32}

theorem kvaddr_lt (hn : n.toNat < 1048576) :
    paddrToKvaddr x - paddrToKvaddr d < n * pageSize ↔ (Range.mk d n).Has x := by
  have hx : paddrToKvaddr x - paddrToKvaddr d = x - d := by
    unfold paddrToKvaddr
    grind
  rw [hx, UInt32.lt_iff_toNat_lt, UInt32.toNat_mul, pageSize_toNat, Range.Has,
    Nat.mod_eq_of_lt (by omega)]

theorem memmove_has (hn : n.toNat < 1048576) (h : (Range.mk d n).Has x) :
    memmove mem (paddrToKvaddr d) (paddrToKvaddr src) (n * pageSize) (paddrToKvaddr x) =
      mem (paddrToKvaddr (x - d + src)) := by
  have hx : paddrToKvaddr x - paddrToKvaddr d + paddrToKvaddr src =
      paddrToKvaddr (x - d + src) := by
    unfold paddrToKvaddr
    grind
  rw [memmove, if_pos ((kvaddr_lt hn).mpr h), hx]

theorem memmove_not_has (hn : n.toNat < 1048576) (h : ¬ (Range.mk d n).Has x) :
    memmove mem (paddrToKvaddr d) (paddrToKvaddr src) (n * pageSize) (paddrToKvaddr x) =
      mem (paddrToKvaddr x) := by
  rw [memmove, if_neg (mt (kvaddr_lt hn).mp h)]

end Memmove

section CopyFrames

variable {old new : Addrspace} {mem : UInt32 → UInt8} {x : UInt32}

theorem copyFrames_outside (ha : Alike old new) (hs : Small old)
    (h : ∀ k : Slot, ¬ (k.range new).Has x) :
    copyFrames old new mem (paddrToKvaddr x) = mem (paddrToKvaddr x) := by
  have h1 := h .one
  have h2 := h .two
  have hn1 : old.asNpages1.toNat < 1048576 := hs .one
  have hn2 : old.asNpages2.toNat < 1048576 := hs .two
  have hn3 : dumbvmStackpages.toNat < 1048576 := hs .stack
  simp only [Slot.range, ha.npages1, ha.npages2] at h1 h2
  simp only [copyFrames]
  rw [memmove_not_has hn3 (h .stack), memmove_not_has hn2 h2, memmove_not_has hn1 h1]

/-- The byte of the old space that a byte of the new one is a copy of. -/
theorem has_source (ha : Alike old new) {k : Slot} (h : (k.range new).Has x) :
    (k.range old).Has (x - (k.range new).paddr + (k.range old).paddr) := by
  have hx : x - (k.range new).paddr + (k.range old).paddr - (k.range old).paddr =
      x - (k.range new).paddr := by grind
  rw [Range.Has, hx, ← ha.npages k]
  exact h

theorem copyFrames_inside (ha : Alike old new) (hs : Small old) (hf : Fresh old new) {k : Slot}
    (h : (k.range new).Has x) : copyFrames old new mem (paddrToKvaddr x) =
      mem (paddrToKvaddr (x - (k.range new).paddr + (k.range old).paddr)) := by
  have hsrc : ∀ j : Slot, ¬ (j.range new).Has (x - (k.range new).paddr + (k.range old).paddr) :=
    fun j hj => hf.old j k _ hj (has_source ha h)
  have hother : ∀ j : Slot, j ≠ k → ¬ (j.range new).Has x := fun j hj hx => hf.new j k hj x hx h
  have hn1 := hs .one
  have hn2 := hs .two
  have hn3 : dumbvmStackpages.toNat < 1048576 := hs .stack
  simp only [copyFrames]
  cases k with
  | one =>
    have h2 := hother .two (by decide)
    simp only [Slot.range, ha.npages1, ha.npages2] at h h2 hn1 hn2
    rw [memmove_not_has hn3 (hother .stack (by decide)), memmove_not_has hn2 h2,
      memmove_has hn1 h]
    rfl
  | two =>
    have h1 := hsrc .one
    simp only [Slot.range, ha.npages1, ha.npages2] at h h1 hn1 hn2
    rw [memmove_not_has hn3 (hother .stack (by decide)), memmove_has hn2 h,
      memmove_not_has hn1 h1]
    rfl
  | stack =>
    have h1 := hsrc .one
    have h2 := hsrc .two
    simp only [Slot.range, ha.npages1, ha.npages2] at h h1 h2 hn1 hn2
    rw [memmove_has hn3 h, memmove_not_has hn2 h2, memmove_not_has hn1 h1]
    rfl

theorem aligned_iff (y : UInt32) : y &&& pageFrame = y ↔ y.toNat % 4096 = 0 := by
  constructor
  · exact toNat_pageFrame_eq
  · intro h
    apply UInt32.toNat_inj.mp
    rw [toNat_and_pageFrame]
    omega

/-- The address hits the slot of the copy too. -/
theorem Hit.alike {fa p : UInt32} {k : Slot} (h : Hit old fa k p) (ha : Alike old new)
    (hl : Loaded new)
    (hp : ∀ k : Slot, (k.range new).paddr &&& pageFrame = (k.range new).paddr) :
    Hit new fa k (fa - k.vbase old + (k.range new).paddr) where
  setUp := ha.setUp h.setUp hl hp
  aligned := h.aligned
  slot := (ha.slotOf fa).trans h.slot
  leads := by rw [ha.vbase]
  page := by
    have hfa := toNat_pageFrame_eq h.aligned
    have hv := toNat_pageFrame_eq (setUp_spec h.setUp k).1
    have hb := toNat_pageFrame_eq (hp k)
    rw [aligned_iff, UInt32.toNat_add, UInt32.toNat_sub]
    omega

theorem copy_faithful (ha : Alike old new) (hs : Small old) (hf : Fresh old new)
    (hl : Loaded new)
    (hp : ∀ k : Slot, (k.range new).paddr &&& pageFrame = (k.range new).paddr) :
    Copy.Faithful ⟨old, new, mem, copyFrames old new mem⟩ where
  translated va p h := by
    obtain ⟨k, hk⟩ := hit_of_translate h
    have hk' := hk.alike ha hl hp
    have hs' : Small new := fun j => by
      rw [ha.npages]
      exact hs j
    have hin := hk.inside hs
    have hin' := hk'.inside hs'
    refine ⟨_, hk'.translate, fun he => ?_, fun i hi => ⟨?_, ?_⟩⟩
    · have h0 : (0 : UInt32) < pageSize := by decide
      exact hf.old k k _ (hin' 0 h0) (he ▸ hin 0 h0)
    · show copyFrames old new mem (_ + i) = mem (_ + i)
      rw [kvaddr_add, kvaddr_add, copyFrames_inside ha hs hf (hin' i hi), hk.leads]
      congr 2
      grind
    · show copyFrames old new mem (_ + i) = mem (_ + i)
      rw [kvaddr_add]
      exact copyFrames_outside ha hs fun j hj => hf.old j k _ hj (hin i hi)

end CopyFrames

theorem Range.Disjoint.symm {r r' : Range} (h : r.Disjoint r') : r'.Disjoint r :=
  fun x hx hx' => h x hx' hx

theorem Range.disjoint_of_le {r r' : Range}
    (h : r.paddr.toNat + r.npages.toNat * 4096 ≤ r'.paddr.toNat)
    (h' : r'.paddr.toNat + r'.npages.toNat * 4096 ≤ 4294967296) : r'.Disjoint r := by
  intro x hx' hx
  have hlt := x.toNat_lt
  have hr := r.paddr.toNat_lt
  have hr' := r'.paddr.toNat_lt
  rw [Range.Has, UInt32.toNat_sub] at hx hx'
  omega

/-- Pages handed out upwards, newest first. -/
theorem apart_of_ascending {l : List Obtained}
    (ha : ∀ o ∈ l, o.range.paddr &&& pageFrame = o.range.paddr)
    (h : l.Pairwise fun o o' =>
      o'.range.paddr.toNat + o'.range.npages.toNat * 4096 ≤ o.range.paddr.toNat ∧
        o.range.paddr.toNat + o.range.npages.toNat * 4096 ≤ 4294967296) : Apart l :=
  ⟨ha, h.imp fun hle => Range.disjoint_of_le hle.1 hle.2⟩

theorem Apart.suffix {l l' : List Obtained} (h : Apart l') (hl : l <:+ l') : Apart l :=
  ⟨fun o ho => h.aligned o (hl.subset ho), h.disjoint.sublist hl.sublist⟩

/-- Of two ranges that are not obtained at once, neither has a byte of the other. -/
theorem Apart.of_ne {l : List Obtained} {o o' : Obtained} (h : Apart l) (ho : o ∈ l) (ho' : o' ∈ l)
    (hne : o ≠ o') : o.range.Disjoint o'.range :=
  have : Std.Symm fun o o' : Obtained => o.range.Disjoint o'.range := ⟨fun _ _ hd => hd.symm⟩
  h.disjoint.forall ho ho' hne

theorem fresh_of_apart {old new : Addrspace} {o : Nat} {l : List Obtained}
    (h : Apart (⟨o, Slot.stack.range new⟩ :: ⟨o, Slot.two.range new⟩ ::
      ⟨o, Slot.one.range new⟩ :: l))
    (hold : ∀ k : Slot, ∃ o', ⟨o', k.range old⟩ ∈ l) : Fresh old new := by
  obtain ⟨h3, hrest⟩ := List.pairwise_cons.mp h.disjoint
  obtain ⟨h2, hrest⟩ := List.pairwise_cons.mp hrest
  obtain ⟨h1, -⟩ := List.pairwise_cons.mp hrest
  constructor
  case old =>
    intro j k
    obtain ⟨o', hk⟩ := hold k
    cases j with
    | one => exact h1 ⟨o', k.range old⟩ hk
    | two => exact h2 ⟨o', k.range old⟩ (List.mem_cons_of_mem _ hk)
    | stack => exact h3 ⟨o', k.range old⟩ (List.mem_cons_of_mem _ (List.mem_cons_of_mem _ hk))
  case new =>
    have h12 : (Slot.two.range new).Disjoint (Slot.one.range new) :=
      h2 ⟨o, Slot.one.range new⟩ List.mem_cons_self
    have h23 : (Slot.stack.range new).Disjoint (Slot.two.range new) :=
      h3 ⟨o, Slot.two.range new⟩ List.mem_cons_self
    have h13 : (Slot.stack.range new).Disjoint (Slot.one.range new) :=
      h3 ⟨o, Slot.one.range new⟩ (List.mem_cons_of_mem _ List.mem_cons_self)
    intro j k hjk
    cases j with
    | one =>
      cases k with
      | one => exact absurd rfl hjk
      | two => exact h12.symm
      | stack => exact h13.symm
    | two =>
      cases k with
      | one => exact h12
      | two => exact absurd rfl hjk
      | stack => exact h23.symm
    | stack =>
      cases k with
      | one => exact h13
      | two => exact h23
      | stack => exact absurd rfl hjk

/-! ## The invariant -/

structure Inv (s : State) : Prop where
  small : ∀ a as, s.space a = some as → Small as
  own : ∀ a as, s.space a = some as → ∀ k : Slot, (k.range as).paddr ≠ 0 →
    ⟨a, k.range as⟩ ∈ s.obtained
  installed : ∀ e ∈ s.installed, ∃ o ∈ s.obtained, o.owner = e.space ∧
    ∀ i < pageSize, o.range.Has ((e.elo &&& tlbloPpage) + i)
  copies : ∀ c ∈ s.copies, Loaded c.old → c.Faithful

theorem space_set {sp : List (Option Addrspace)} {x : Option Addrspace} {bs : Addrspace}
    (h : ((sp.set a x)[b]?).join = some bs) :
    b = a ∧ x = some bs ∨ (sp[b]?).join = some bs := by
  rw [List.getElem?_set] at h
  split at h
  · rename_i hab
    split at h
    · exact .inl ⟨hab.symm, h⟩
    · cases h
  · exact .inr h

theorem space_append {sp : List (Option Addrspace)} {x : Option Addrspace} {bs : Addrspace}
    (h : ((sp ++ [x])[b]?).join = some bs) :
    b = sp.length ∧ x = some bs ∨ (sp[b]?).join = some bs := by
  rcases Nat.lt_trichotomy b sp.length with hlt | heq | hgt
  · rw [List.getElem?_append_left hlt] at h
    exact .inr h
  · rw [heq, List.getElem?_append_right (Nat.le_refl _), Nat.sub_self] at h
    exact .inl ⟨heq, h⟩
  · rw [List.getElem?_eq_none (by rw [List.length_append]; exact hgt)] at h
    cases h

/-- What a step needs to keep of the spaces and the frames. -/
theorem Inv.transfer (h : Inv s) (hgrown : s.obtained <:+ s'.obtained)
    (hspace : ∀ b bs, s'.space b = some bs → s.space b = some bs ∨
      Small bs ∧ ∀ k : Slot, (k.range bs).paddr ≠ 0 → ⟨b, k.range bs⟩ ∈ s'.obtained)
    (hinst : s'.installed = s.installed)
    (hcopies : ∀ c ∈ s'.copies, c ∈ s.copies ∨ (Loaded c.old → c.Faithful)) : Inv s' where
  small b bs hb := by
    rcases hspace b bs hb with hold | hnew
    · exact h.small b bs hold
    · exact hnew.1
  own b bs hb k hk := by
    rcases hspace b bs hb with hold | hnew
    · exact hgrown.subset (h.own b bs hold k hk)
    · exact hnew.2 k hk
  installed e he := by
    obtain ⟨o, ho, hrest⟩ := h.installed e (hinst ▸ he)
    exact ⟨o, hgrown.subset ho, hrest⟩
  copies c hc := (hcopies c hc).elim (h.copies c) id

/-! ## Steps -/

theorem regionPages_small (sz : UInt32) : (regionPages sz).toNat < 1048576 := by
  have hlt := (sz + pageSize - 1).toNat_lt
  rw [regionPages_eq, UInt32.toNat_div, pageSize_toNat]
  omega

theorem Small.defineRegion (h : Small as) (vaddr sz : UInt32) :
    Small (asDefineRegion as vaddr sz).2 := by
  have hr := regionPages_small sz
  intro k
  unfold asDefineRegion
  dsimp only
  split
  · cases k with
    | one => exact hr
    | two => exact h .two
    | stack => exact h .stack
  · split
    · cases k with
      | one => exact h .one
      | two => exact hr
      | stack => exact h .stack
    · exact h k

theorem asDefineRegion_paddr (as : Addrspace) (vaddr sz : UInt32) (k : Slot) :
    (k.range (asDefineRegion as vaddr sz).2).paddr = (k.range as).paddr := by
  unfold asDefineRegion
  dsimp only
  split
  · cases k <;> rfl
  · split
    · cases k <;> rfl
    · rfl

theorem Alike.small {bs : Addrspace} (h : Alike as bs) (hs : Small as) : Small bs := by
  intro k
  rw [h.npages]
  exact hs k

theorem small_asCreate : Small asCreate := by
  intro k
  cases k <;> decide

theorem Inv.fault {r : FaultResult} {faulttype va : UInt32} (h : Inv s) (ha : s.space a = some as)
    (hr : vmFault (some as) faulttype va = some r) : Inv (s.fault a r) := by
  cases r with
  | error e => exact h
  | install ehi elo =>
    simp only [State.fault]
    split
    · exact h
    · refine ⟨h.small, h.own, fun e he => ?_, h.copies⟩
      rcases List.mem_cons.mp he with rfl | he
      · obtain ⟨k, hk⟩ := vmFault_hit hr
        exact ⟨⟨a, k.range as⟩, h.own a as ha k (setUp_spec hk.setUp k).2, rfl,
          hk.inside (h.small a as ha)⟩
      · exact h.installed e he

/-- What `as_copy` does with the new space. -/
theorem asCopy_spec {old : Addrspace} {r : Option Addrspace × Frames}
    (h : asCopy old f = some r) : f.obtained <:+ r.2.obtained ∧ ∀ new, r.1 = some new →
      ∃ o, o.1 = none ∧ o.2.1 = new ∧ o.2.2.obtained = r.2.obtained ∧
        Prepared (asCopy.regions old) f o := by
  simp only [asCopy] at h
  split at h
  · cases h
  · rename_i e as' f' hp
    cases h
    refine ⟨(asPrepareLoad_spec hp).grown, fun new hnew => ?_⟩
    cases hnew
  · rename_i new' f' hp
    split at h
    · cases h
      refine ⟨(asPrepareLoad_spec hp).grown, fun new hnew => ?_⟩
      cases hnew
      exact ⟨(none, new', f'), rfl, rfl, rfl, asPrepareLoad_spec hp⟩
    · cases h

theorem Inv.copy {old new : Addrspace} {o : Option Errno × Addrspace × Frames}
    {answers : List UInt32} (h : Inv s) (ha : s.space a = some old) (ho : o.1 = none)
    (hnew : o.2.1 = new)
    (hp : Prepared (asCopy.regions old) ⟨answers, s.spaces.length, s.obtained⟩ o)
    (happ : Apart o.2.2.obtained) :
    Inv { s with
      spaces := s.spaces ++ [some new]
      obtained := o.2.2.obtained
      mem := copyFrames old new s.mem
      copies := ⟨old, new, s.mem, copyFrames old new s.mem⟩ :: s.copies } := by
  subst hnew
  have halike : Alike old o.2.1 :=
    ⟨hp.alike.vbase1, hp.alike.npages1, hp.alike.vbase2, hp.alike.npages2⟩
  have hsmall := h.small a old ha
  refine h.transfer hp.grown (fun b bs hb => ?_) rfl (fun c hc => ?_)
  · rcases space_append hb with ⟨hlen, he⟩ | hold
    · cases he
      rw [hlen]
      exact .inr ⟨halike.small hsmall, hp.own⟩
    · exact .inl hold
  · rcases List.mem_cons.mp hc with rfl | hc
    · refine .inr fun hl => ?_
      have hob := hp.loaded ho
      have hfresh : Fresh old o.2.1 :=
        fresh_of_apart (hob ▸ happ) fun k => ⟨a, h.own a old ha k (hl k)⟩
      have haligned : ∀ k : Slot, (k.range o.2.1).paddr &&& pageFrame = (k.range o.2.1).paddr :=
        fun k => happ.aligned _ (hp.own k (hp.bases ho k))
      exact copy_faithful halike hsmall hfresh (hp.bases ho) haligned
    · exact .inl hc

theorem step_grown {x : Act} (h : step s x = some s') : s.obtained <:+ s'.obtained := by
  cases x with
  | asCreate memory =>
    cases h
    exact List.suffix_refl _
  | asDestroy a =>
    obtain ⟨as, -, rfl⟩ := Option.map_eq_some_iff.mp h
    exact List.suffix_refl _
  | asActivate =>
    cases h
    exact List.suffix_refl _
  | asDefineRegion a vaddr sz =>
    obtain ⟨as, -, rfl⟩ := Option.map_eq_some_iff.mp h
    exact List.suffix_refl _
  | asPrepareLoad a answers =>
    simp only [step] at h
    split at h
    · cases h
    · split at h
      · cases h
      · rename_i hp
        cases h
        exact (asPrepareLoad_spec hp).grown
  | asCopy a memory answers =>
    simp only [step] at h
    split at h
    · cases h
    · split at h
      · split at h
        · cases h
        · rename_i hp
          cases h
          exact (asCopy_spec hp).1
        · rename_i hp
          cases h
          exact (asCopy_spec hp).1
      · cases h
        exact List.suffix_refl _
  | vmFault a faulttype faultaddress =>
    cases a with
    | none =>
      obtain ⟨r, -, rfl⟩ := Option.map_eq_some_iff.mp h
      exact List.suffix_refl _
    | some a =>
      simp only [step] at h
      split at h
      · cases h
      · obtain ⟨r, -, rfl⟩ := Option.map_eq_some_iff.mp h
        unfold State.fault
        split
        · exact List.suffix_refl _
        · split
          · exact List.suffix_refl _
          · exact List.suffix_refl _
  | store x v =>
    cases h
    exact List.suffix_refl _

theorem Inv.step {x : Act} (h : Inv s) (hx : Proper s x) (hstep : step s x = some s')
    (happ : Apart s'.obtained) : Inv s' := by
  cases x with
  | asCreate memory =>
    cases hstep
    cases memory with
    | false =>
      refine h.transfer (List.suffix_refl _) (fun b bs hb => .inl ?_) rfl fun _ => .inl
      rw [← hb]
      exact congrArg (fun sp : List (Option Addrspace) => (sp[b]?).join) (List.append_nil _).symm
    | true =>
      refine h.transfer (List.suffix_refl _) (fun b bs hb => ?_) rfl fun _ => .inl
      rcases space_append hb with ⟨-, he⟩ | hold
      · cases he
        refine .inr ⟨small_asCreate, fun k hk => absurd ?_ hk⟩
        cases k <;> rfl
      · exact .inl hold
  | asDestroy a =>
    obtain ⟨as, -, rfl⟩ := Option.map_eq_some_iff.mp hstep
    refine h.transfer (List.suffix_refl _) (fun b bs hb => ?_) rfl fun _ => .inl
    rcases space_set hb with ⟨-, he⟩ | hold
    · cases he
    · exact .inl hold
  | asActivate =>
    cases hstep
    exact ⟨h.small, h.own, h.installed, h.copies⟩
  | asDefineRegion a vaddr sz =>
    obtain ⟨as, ha, rfl⟩ := Option.map_eq_some_iff.mp hstep
    refine h.transfer (List.suffix_refl _) (fun b bs hb => ?_) rfl fun _ => .inl
    rcases space_set hb with ⟨-, he⟩ | hold
    · cases he
      refine .inr ⟨(h.small a as ha).defineRegion vaddr sz, fun k hk => absurd ?_ hk⟩
      rw [asDefineRegion_paddr]
      exact hx as ha k
    · exact .inl hold
  | asPrepareLoad a answers =>
    simp only [Spaces.step] at hstep
    split at hstep
    · cases hstep
    · rename_i as ha
      split at hstep
      · cases hstep
      · rename_i r hp
        cases hstep
        have hspec := asPrepareLoad_spec hp
        refine h.transfer hspec.grown (fun b bs hb => ?_) rfl fun _ => .inl
        rcases space_set hb with ⟨hba, he⟩ | hold
        · cases he
          rw [hba]
          exact .inr ⟨hspec.alike.small (h.small a as ha), hspec.own⟩
        · exact .inl hold
  | asCopy a memory answers =>
    simp only [Spaces.step] at hstep
    split at hstep
    · cases hstep
    · rename_i old ha
      split at hstep
      · split at hstep
        · cases hstep
        · rename_i f' hp
          cases hstep
          refine h.transfer (asCopy_spec hp).1 (fun b bs hb => ?_) rfl fun _ => .inl
          rcases space_append hb with ⟨-, he⟩ | hold
          · cases he
          · exact .inl hold
        · rename_i new f' hp
          cases hstep
          obtain ⟨o, ho, hnew, hob, hprep⟩ := (asCopy_spec hp).2 new rfl
          have hcopy := h.copy ha ho hnew hprep (hob.symm ▸ happ)
          rw [hob] at hcopy
          exact hcopy
      · cases hstep
        exact h
  | vmFault a faulttype faultaddress =>
    cases a with
    | none =>
      obtain ⟨r, -, rfl⟩ := Option.map_eq_some_iff.mp hstep
      exact h
    | some a =>
      simp only [Spaces.step] at hstep
      split at hstep
      · cases hstep
      · rename_i as ha
        obtain ⟨r, hr, rfl⟩ := Option.map_eq_some_iff.mp hstep
        exact h.fault ha hr
  | store x v =>
    cases hstep
    exact ⟨h.small, h.own, h.installed, h.copies⟩

/-! ## Runs -/

theorem run_grown {acts : List Act} (h : run step s acts = some s') :
    s.obtained <:+ s'.obtained := by
  induction acts generalizing s with
  | nil =>
    cases h
    exact List.suffix_refl _
  | cons x acts ih =>
    obtain ⟨u, hu, hrest⟩ := Option.bind_eq_some_iff.mp h
    exact (step_grown hu).trans (ih hrest)

theorem Inv.run {acts : List Act} (h : Inv s) (hp : EachStep Spaces.step Proper s acts)
    (hrun : Runs.run Spaces.step s acts = some s') (happ : Apart s'.obtained) : Inv s' := by
  induction acts generalizing s with
  | nil =>
    cases hrun
    exact h
  | cons x acts ih =>
    obtain ⟨u, hu, hrest⟩ := Option.bind_eq_some_iff.mp hrun
    obtain ⟨hx, hp⟩ := hp u hu
    exact ih (h.step hx hu (happ.suffix (run_grown hrest))) hp hrest

theorem Inv.isolated (h : Inv s) (happ : Apart s.obtained) : Isolated s := by
  refine ⟨h.installed, h.own, ?_, h.copies⟩
  intro a b as bs hab ha hb j k hj hk
  have hne : Obtained.mk a (j.range as) ≠ ⟨b, k.range bs⟩ :=
    fun he => hab (congrArg Obtained.owner he)
  have hd := happ.of_ne (h.own a as ha j hj) (h.own b bs hb k hk) hne
  exact hd

theorem boot_space (mem : UInt32 → UInt8) (a : Nat) : (boot mem).space a = none := by
  show (([] : List (Option Addrspace))[a]?).join = none
  rw [List.getElem?_nil]
  rfl

theorem Inv.boot (mem : UInt32 → UInt8) : Inv (boot mem) where
  small a as h := absurd (h.symm.trans (boot_space mem a)) (Option.some_ne_none as)
  own a as h := absurd (h.symm.trans (boot_space mem a)) (Option.some_ne_none as)
  installed _ h := absurd h List.not_mem_nil
  copies _ h := absurd h List.not_mem_nil

/-- If no region is defined in a space that has its frames already, spaces are isolated. -/
theorem spaces_isolated (mem : UInt32 → UInt8) (acts : List Act) (s : State)
    (hrun : run step (boot mem) acts = some s) (hp : EachStep step Proper (boot mem) acts)
    (happ : Apart s.obtained) : Isolated s :=
  ((Inv.boot mem).run hp hrun happ).isolated happ

/-- A space with two regions of a page, a fault in the first, and a copy. -/
def twoSpaces : List Act :=
  [.asCreate true, .asDefineRegion 0 0x400000 4096, .asDefineRegion 0 0x10000000 4096,
    .asPrepareLoad 0 [0x1000, 0x2000, 0x3000], .vmFault (some 0) vmFaultRead 0x400123,
    .asCopy 0 true [0xf000, 0x10000, 0x11000]]

theorem spaces_isolated_two : ∃ s, run step (boot fun _ => 0) twoSpaces = some s ∧ Isolated s := by
  have hrun : ∃ s, run step (boot fun _ => 0) twoSpaces = some s ∧ s.obtained =
      [⟨1, ⟨0x11000, 12⟩⟩, ⟨1, ⟨0x10000, 1⟩⟩, ⟨1, ⟨0xf000, 1⟩⟩, ⟨0, ⟨0x3000, 12⟩⟩,
        ⟨0, ⟨0x2000, 1⟩⟩, ⟨0, ⟨0x1000, 1⟩⟩] := ⟨_, rfl, rfl⟩
  obtain ⟨s, hs, hob⟩ := hrun
  refine ⟨s, hs, spaces_isolated _ twoSpaces s hs ?_ ?_⟩
  · have hzero : ∀ (u : State), u.space 0 = some asCreate ∨
        u.space 0 = some ⟨0x400000, 0, 1, 0, 0, 0, 0⟩ →
        ∀ as, u.space 0 = some as → ∀ k : Slot, (k.range as).paddr = 0 := by
      intro u hu as has k
      rcases hu with hu | hu
      · cases hu.symm.trans has
        cases k <;> rfl
      · cases hu.symm.trans has
        cases k <;> rfl
    intro u hu
    cases hu
    refine ⟨trivial, fun u hu => ?_⟩
    cases hu
    refine ⟨hzero _ (.inl rfl), fun u hu => ?_⟩
    cases hu
    refine ⟨hzero _ (.inr rfl), fun u hu => ⟨trivial, fun u hu => ⟨trivial, fun u hu => ?_⟩⟩⟩
    exact ⟨trivial, trivial⟩
  · rw [hob]
    exact apart_of_ascending (by decide) (by decide)

/-- The regions are defined after the space was prepared, with no pages for them yet. -/
def lateRegions : List Act :=
  [.asCreate true, .asPrepareLoad 0 [0x1000, 0x1000, 0x1000], .asDefineRegion 0 0x400000 0x10000,
    .asDefineRegion 0 0x10000000 4096, .vmFault (some 0) vmFaultRead 0x40e000]

/-- The translation then leads beyond all frames of the space. -/
theorem spaces_isolated_late : ¬ ∀ mem acts s, run step (boot mem) acts = some s →
    Apart s.obtained → Isolated s := by
  intro h
  have hrun : ∃ s, run step (boot fun _ => 0) lateRegions = some s ∧
      s.obtained = [⟨0, ⟨0x1000, 12⟩⟩, ⟨0, ⟨0x1000, 0⟩⟩, ⟨0, ⟨0x1000, 0⟩⟩] ∧
      s.installed = [⟨0, 0x40e000, 0xf600⟩] := ⟨_, rfl, rfl, rfl⟩
  obtain ⟨s, hs, hob, hin⟩ := hrun
  have happ : Apart s.obtained := by
    rw [hob]
    exact apart_of_ascending (by decide) (by decide)
  obtain ⟨o, ho, -, hhas⟩ := (h _ _ s hs happ).installed _ (hin ▸ List.mem_singleton.mpr rfl)
  have hout : ∀ o ∈ s.obtained, ¬ o.range.Has 0xf000 := by
    rw [hob]
    unfold Range.Has
    decide
  exact hout o ho (hhas 0 (by decide))

end Os161.Vm.Spaces

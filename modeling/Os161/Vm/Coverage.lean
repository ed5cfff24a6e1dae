import Mathlib.Tactic.SplitIfs
import Os161.Vm.Isolation

/-! # Which addresses of a region are mapped

`as_define_region` rounds the start of a region down and its size up, each for itself. -/
namespace Os161.Vm.Spaces

/-- Further regions, in the order in which they are defined. -/
def defineRegions (as : Addrspace) (regions : List (UInt32 × UInt32)) : Addrspace :=
  regions.foldl (fun as x => (asDefineRegion as x.1 x.2).2) as

/-- Where `as_define_region` puts a region. -/
def slotFor (as : Addrspace) : Slot := if as.asVbase1 = 0 then .one else .two

/-- The space with a region at `vaddr` and others after it. -/
def withRegion (as : Addrspace) (vaddr sz : UInt32) (regions : List (UInt32 × UInt32)) :
    Addrspace := defineRegions (asDefineRegion as vaddr sz).2 regions

structure UserRange (vaddr sz : UInt32) : Prop where
  pos : 0 < sz.toNat
  top : vaddr.toNat + sz.toNat ≤ 0x80000000

/-- The address is in the range. -/
structure InRange (vaddr sz va : UInt32) : Prop where
  low : vaddr.toNat ≤ va.toNat
  high : va.toNat < vaddr.toNat + sz.toNat

/-- What the assertions of `vm_fault` ask of a slot, its frames aside. -/
structure Defined (as : Addrspace) (k : Slot) : Prop where
  vbase : k.vbase as ≠ 0
  aligned : k.vbase as &&& pageFrame = k.vbase as
  npages : (k.range as).npages ≠ 0

/-- The physical address behind a translation. -/
def physical (elo va : UInt32) : UInt32 := (elo &&& tlbloPpage) + (va - (va &&& pageFrame))

/-- A fault at `va` succeeds if an entry of the TLB is free, and leads into the frames of the slot,
as far behind `base` as `va` is behind `vaddr`. -/
def Maps (as : Addrspace) (k : Slot) (base vaddr va : UInt32) : Prop :=
  ∀ faulttype, faulttype = vmFaultRead ∨ faulttype = vmFaultWrite → ∃ elo,
    vmFault (some as) faulttype va = some (.install (va &&& pageFrame) elo) ∧
    (∀ tlb : List (UInt32 × UInt32), (∃ e ∈ tlb, e.2 &&& tlbloValid = 0) →
      ∃ tlb', tlbWrite (va &&& pageFrame) elo tlb = some tlb' ∧ (va &&& pageFrame, elo) ∈ tlb') ∧
    physical elo va = base + (va - vaddr) ∧ (k.range as).Has (physical elo va)

def Covered (as : Addrspace) (k : Slot) (vaddr sz : UInt32) : Prop :=
  ∃ base, ∀ va, InRange vaddr sz va → Maps as k base vaddr va

/-- The region does not begin in page 0, it needs no page more than its size alone, the other slot
is taken as well, and its range, if it comes first, does not reach into this one. -/
structure Coverable (as : Addrspace) (vaddr sz : UInt32) (regions : List (UInt32 × UInt32)) :
    Prop where
  page : 4096 ≤ vaddr.toNat
  residue : vaddr.toNat % 4096 + sz.toNat ≤ roundup sz.toNat
  other : ∀ k : Slot, k ≠ slotFor as → k ≠ .stack → Defined (withRegion as vaddr sz regions) k
  apart : as.asVbase1 ≠ 0 → ∀ va, InRange vaddr sz va →
    ¬ (as.asVbase1 ≤ va &&& pageFrame ∧ va &&& pageFrame < as.asVbase1 + as.asNpages1 * pageSize)

variable {as as' : Addrspace} {r r' : Ram} {vaddr sz va fa base : UInt32} {j k : Slot}
  {regions : List (UInt32 × UInt32)}

/-! ## Definitions of regions -/

/-- A region that is there stays. -/
structure Keeps (as as' : Addrspace) : Prop where
  one : as.asVbase1 ≠ 0 → as'.asVbase1 = as.asVbase1 ∧ as'.asNpages1 = as.asNpages1
  two : as.asVbase2 ≠ 0 → as'.asVbase2 = as.asVbase2 ∧ as'.asNpages2 = as.asNpages2

theorem asDefineRegion_keeps : Keeps as (asDefineRegion as vaddr sz).2 := by
  unfold asDefineRegion
  dsimp only
  split_ifs with h1 h2
  · exact ⟨fun h => absurd h1 h, fun _ => ⟨rfl, rfl⟩⟩
  · exact ⟨fun _ => ⟨rfl, rfl⟩, fun h => absurd h2 h⟩
  · exact ⟨fun _ => ⟨rfl, rfl⟩, fun _ => ⟨rfl, rfl⟩⟩

theorem defineRegions_keeps : Keeps as (defineRegions as regions) := by
  induction regions generalizing as with
  | nil => exact ⟨fun _ => ⟨rfl, rfl⟩, fun _ => ⟨rfl, rfl⟩⟩
  | cons x regions ih =>
    have hx : Keeps as (asDefineRegion as x.1 x.2).2 := asDefineRegion_keeps
    have hrest : Keeps (asDefineRegion as x.1 x.2).2 (defineRegions as (x :: regions)) := ih
    constructor
    · intro h
      have h1 := hx.one h
      have h2 := hrest.one (by rw [h1.1]; exact h)
      exact ⟨h2.1.trans h1.1, h2.2.trans h1.2⟩
    · intro h
      have h1 := hx.two h
      have h2 := hrest.two (by rw [h1.1]; exact h)
      exact ⟨h2.1.trans h1.1, h2.2.trans h1.2⟩

/-- Above page 0 the region is in its slot for good. -/
theorem withRegion_slot (regions : List (UInt32 × UInt32))
    (hok : (asDefineRegion as vaddr sz).1 = none) (h : vaddr &&& pageFrame ≠ 0) :
    (slotFor as).vbase (withRegion as vaddr sz regions) = vaddr &&& pageFrame ∧
      ((slotFor as).range (withRegion as vaddr sz regions)).npages = regionPages sz := by
  have hkeep : Keeps (asDefineRegion as vaddr sz).2 (withRegion as vaddr sz regions) :=
    defineRegions_keeps
  unfold asDefineRegion at hok hkeep
  unfold slotFor
  dsimp only at hok hkeep
  split_ifs at hok hkeep ⊢ with h1 h2
  · exact hkeep.one h
  · exact hkeep.two h

theorem withRegion_one (vaddr sz : UInt32) (regions : List (UInt32 × UInt32))
    (h : as.asVbase1 ≠ 0) :
    (withRegion as vaddr sz regions).asVbase1 = as.asVbase1 ∧
      (withRegion as vaddr sz regions).asNpages1 = as.asNpages1 := by
  have hfirst : Keeps as (asDefineRegion as vaddr sz).2 := asDefineRegion_keeps
  have hrest : Keeps (asDefineRegion as vaddr sz).2 (withRegion as vaddr sz regions) :=
    defineRegions_keeps
  have h1 := hfirst.one h
  have h2 := hrest.one (by rw [h1.1]; exact h)
  exact ⟨h2.1.trans h1.1, h2.2.trans h1.2⟩

/-! ## The frames of a space -/

/-- The slots of a loaded space come one after another in memory. -/
structure Placed (as : Addrspace) (r : Ram) (as' : Addrspace) : Prop where
  alike : Alike as as'
  first : as'.asPbase1 = r.firstpaddr
  second : as'.asPbase2 = r.firstpaddr + as.asNpages1 * pageSize
  stack : as'.asStackpbase = r.firstpaddr + as.asNpages1 * pageSize + as.asNpages2 * pageSize
  loaded : Loaded as'

theorem ramStealmem_ok {n : UInt32} (h : (ramStealmem n r).1 ≠ 0) :
    (ramStealmem n r).1 = r.firstpaddr ∧
      (ramStealmem n r).2.firstpaddr = r.firstpaddr + n * pageSize := by
  unfold ramStealmem at h ⊢
  dsimp only at h ⊢
  split_ifs at h ⊢ with hlast
  · exact absurd rfl h
  · exact ⟨rfl, rfl⟩

/-- A space that is loaded has three answers of `getppages`. -/
theorem asPrepareLoad_ok {R : Type} {getppages : UInt32 → R → UInt32 × R} {r r' : R}
    (h : asPrepareLoad getppages as r = some (none, as', r')) :
    ∃ r2 r3, r2 = (getppages as.asNpages1 r).2 ∧ r3 = (getppages as.asNpages2 r2).2 ∧
      Alike as as' ∧ as'.asPbase1 = (getppages as.asNpages1 r).1 ∧
        as'.asPbase2 = (getppages as.asNpages2 r2).1 ∧
          as'.asStackpbase = (getppages dumbvmStackpages r3).1 ∧ Loaded as' := by
  unfold asPrepareLoad at h
  dsimp only at h
  split_ifs at h with h0 h1 h2 h3
  · simp only [Option.some.injEq, Prod.mk.injEq, reduceCtorEq, false_and] at h
  · simp only [Option.some.injEq, Prod.mk.injEq, reduceCtorEq, false_and] at h
  · simp only [Option.some.injEq, Prod.mk.injEq, reduceCtorEq, false_and] at h
  · obtain ⟨-, rfl, -⟩ := h
    refine ⟨_, _, rfl, rfl, ⟨rfl, rfl, rfl, rfl⟩, rfl, rfl, rfl, fun k => ?_⟩
    cases k with
    | one => exact h1
    | two => exact h2
    | stack => exact h3

theorem asPrepareLoad_placed (h : asPrepareLoad ramStealmem as r = some (none, as', r')) :
    Placed as r as' := by
  obtain ⟨r2, r3, hr2, hr3, halike, h1, h2, h3, hloaded⟩ := asPrepareLoad_ok h
  have l1 : as'.asPbase1 ≠ 0 := hloaded .one
  have l2 : as'.asPbase2 ≠ 0 := hloaded .two
  have l3 : as'.asStackpbase ≠ 0 := hloaded .stack
  rw [h1] at l1
  rw [h2] at l2
  rw [h3] at l3
  have e1 := ramStealmem_ok l1
  have e2 := ramStealmem_ok l2
  have e3 := ramStealmem_ok l3
  rw [← hr2] at e1
  rw [← hr3] at e2
  refine ⟨halike, h1.trans e1.1, ?_, ?_, hloaded⟩
  · rw [h2, e2.1, e1.2]
  · rw [h3, e3.1, e2.2, e1.2]

theorem aligned_add_pages {x : UInt32} (h : x &&& pageFrame = x) (n : UInt32) :
    (x + n * pageSize) &&& pageFrame = x + n * pageSize := by
  rw [aligned_iff] at h ⊢
  rw [UInt32.toNat_add, UInt32.toNat_mul, pageSize_toNat]
  omega

theorem Placed.aligned (h : Placed as r as') (hr : r.firstpaddr &&& pageFrame = r.firstpaddr)
    (k : Slot) : (k.range as').paddr &&& pageFrame = (k.range as').paddr := by
  cases k with
  | one =>
    simp only [Slot.range, h.first]
    exact hr
  | two =>
    simp only [Slot.range, h.second]
    exact aligned_add_pages hr _
  | stack =>
    simp only [Slot.range, h.stack]
    exact aligned_add_pages (aligned_add_pages hr _) _

theorem setUp_iff : setUp as = true ↔ Defined as .one ∧ Defined as .two ∧ Loaded as ∧
    ∀ k : Slot, (k.range as).paddr &&& pageFrame = (k.range as).paddr := by
  simp only [setUp, Bool.and_eq_true, decide_eq_true_eq]
  constructor
  · intro hx
    obtain ⟨⟨⟨⟨⟨⟨⟨⟨⟨⟨⟨h1, h2⟩, h3⟩, h4⟩, h5⟩, h6⟩, h7⟩, h8⟩, h9⟩, h10⟩, h11⟩, h12⟩ := hx
    refine ⟨⟨h1, h8, h3⟩, ⟨h4, h10, h6⟩, fun k => ?_, fun k => ?_⟩
    · cases k with
      | one => exact h2
      | two => exact h5
      | stack => exact h7
    · cases k with
      | one => exact h9
      | two => exact h11
      | stack => exact h12
  · intro hx
    obtain ⟨h1, h2, hl, ha⟩ := hx
    exact ⟨⟨⟨⟨⟨⟨⟨⟨⟨⟨⟨h1.vbase, hl .one⟩, h1.npages⟩, h2.vbase⟩, hl .two⟩, h2.npages⟩, hl .stack⟩,
      h1.aligned⟩, ha .one⟩, h2.aligned⟩, ha .two⟩, ha .stack⟩

theorem Alike.defined (h : Alike as as') (k : Slot) : Defined as' k ↔ Defined as k := by
  constructor
  · intro hx
    obtain ⟨h1, h2, h3⟩ := hx
    rw [h.vbase] at h1 h2
    rw [h.npages] at h3
    exact ⟨h1, h2, h3⟩
  · intro hx
    obtain ⟨h1, h2, h3⟩ := hx
    exact ⟨by rw [h.vbase]; exact h1, by rw [h.vbase]; exact h2, by rw [h.npages]; exact h3⟩

/-! ## Faults -/

theorem tlbWrite_free {ehi elo : UInt32} {tlb : List (UInt32 × UInt32)}
    (h : ∃ e ∈ tlb, e.2 &&& tlbloValid = 0) :
    ∃ tlb', tlbWrite ehi elo tlb = some tlb' ∧ (ehi, elo) ∈ tlb' := by
  induction tlb with
  | nil =>
    obtain ⟨e, he, -⟩ := h
    cases he
  | cons e rest ih =>
    rw [tlbWrite]
    by_cases hv : e.2 &&& tlbloValid ≠ 0
    · obtain ⟨e', he', hfree⟩ := h
      have hrest : e' ∈ rest := (List.mem_cons.mp he').resolve_left fun heq =>
        hv (heq ▸ hfree)
      obtain ⟨tlb', htlb, hmem⟩ := ih ⟨e', hrest, hfree⟩
      exact ⟨e :: tlb', by rw [if_pos hv, htlb]; rfl, List.mem_cons_of_mem _ hmem⟩
    · exact ⟨(ehi, elo) :: rest, if_neg hv, List.mem_cons_self⟩

theorem maps_iff : Maps as k base vaddr va ↔ ∃ j paddr, Hit as (va &&& pageFrame) j paddr ∧
    paddr + (va - (va &&& pageFrame)) = base + (va - vaddr) ∧
      (k.range as).Has (base + (va - vaddr)) := by
  constructor
  · intro h
    obtain ⟨elo, hf, -, hphys, hhas⟩ := h vmFaultRead (.inl rfl)
    obtain ⟨j, hj⟩ := vmFault_hit hf
    rw [hphys] at hhas
    exact ⟨j, elo &&& tlbloPpage, hj, hphys, hhas⟩
  · intro hx faulttype ht
    obtain ⟨j, paddr, hj, hphys, hhas⟩ := hx
    have helo : physical (paddr ||| tlbloDirty ||| tlbloValid) va = base + (va - vaddr) := by
      rw [physical, elo_ppage hj.page, hphys]
    exact ⟨_, hj.vmFault ht, fun tlb hfree => tlbWrite_free hfree, helo, by rw [helo]; exact hhas⟩

/-! ## A region that is defined and loaded -/

/-- `as_define_region` and `as_prepare_load` succeed, with other definitions between them; memory
is handed out in pages. -/
structure Loading (as : Addrspace) (vaddr sz : UInt32) (regions : List (UInt32 × UInt32))
    (r : Ram) (as' : Addrspace) (r' : Ram) : Prop where
  range : UserRange vaddr sz
  defined : (asDefineRegion as vaddr sz).1 = none
  aligned : r.firstpaddr &&& pageFrame = r.firstpaddr
  loaded : asPrepareLoad ramStealmem (withRegion as vaddr sz regions) r = some (none, as', r')

theorem Loading.placed (h : Loading as vaddr sz regions r as' r') :
    Placed (withRegion as vaddr sz regions) r as' := asPrepareLoad_placed h.loaded

theorem UserRange.pages (h : UserRange vaddr sz) :
    (regionPages sz).toNat * 4096 = roundup sz.toNat ∧ sz.toNat ≤ roundup sz.toNat ∧
      roundup sz.toNat ≤ 0x80000000 := by
  have h1 := h.top
  refine ⟨regionPages_toNat (by omega), ?_, ?_⟩
  · unfold roundup
    omega
  · unfold roundup
    omega

theorem page_ne_zero : vaddr &&& pageFrame ≠ 0 ↔ 4096 ≤ vaddr.toNat := by
  rw [ne_eq, ← UInt32.toNat_inj, toNat_and_pageFrame, UInt32.toNat_zero]
  omega

theorem Loading.slot (h : Loading as vaddr sz regions r as' r') (hp : 4096 ≤ vaddr.toNat) :
    (slotFor as).vbase as' = vaddr &&& pageFrame ∧
      ((slotFor as).range as').npages = regionPages sz := by
  rw [h.placed.alike.vbase, h.placed.alike.npages]
  exact withRegion_slot regions h.defined (page_ne_zero.mpr hp)

theorem vbase_ne_zero (h : setUp as = true) (k : Slot) : k.vbase as ≠ 0 := by
  obtain ⟨h1, h2, -⟩ := setUp_iff.mp h
  cases k with
  | one => exact h1.vbase
  | two => exact h2.vbase
  | stack => exact (by decide : userstack - dumbvmStackpages * pageSize ≠ 0)

theorem toNat_sub_page (va : UInt32) : (va - (va &&& pageFrame)).toNat = va.toNat % 4096 := by
  have hpage := toNat_and_pageFrame va
  rw [UInt32.toNat_sub_of_le _ _ (UInt32.le_iff_toNat_le.mpr (by omega)), hpage]
  omega

/-- A stretch of bytes that stays inside `n` of the `2 ^ 32` addresses does not wrap around. -/
theorem add_le_of_inside {o m n : Nat} (hm : 0 < m) (hn : n < 4294967296) (ho : o < 4294967296)
    (h : ∀ i < m, (o + i) % 4294967296 < n) : o + m ≤ n := by
  have h0 := h 0 hm
  by_contra hgt
  have hlast := h (n - o) (by omega)
  omega

theorem UserRange.toNat_ofNat (h : UserRange vaddr sz) {i : Nat} (hi : i < sz.toNat) :
    (UInt32.ofNat i).toNat = i := by
  have htop := h.top
  rw [UInt32.toNat_ofNat', Nat.mod_eq_of_lt (by omega)]

theorem inRange_add (h : UserRange vaddr sz) {i : Nat} (hi : i < sz.toNat) :
    InRange vaddr sz (vaddr + UInt32.ofNat i) ∧
      (vaddr + UInt32.ofNat i) - vaddr = UInt32.ofNat i := by
  have h1 := h.top
  have hi32 := h.toNat_ofNat hi
  have hsum : (vaddr + UInt32.ofNat i).toNat = vaddr.toNat + i := by
    rw [UInt32.toNat_add, hi32]
    omega
  refine ⟨⟨by omega, by omega⟩, ?_⟩
  rw [UInt32.add_comm, UInt32.add_sub_cancel]

/-! ## What is mapped -/

theorem Covered.page (h : Covered as' k vaddr sz) (hr : UserRange vaddr sz) :
    4096 ≤ vaddr.toNat ∧ setUp as' = true := by
  obtain ⟨base, hmaps⟩ := h
  have hpos := hr.pos
  obtain ⟨j, paddr, hj, -⟩ := maps_iff.mp (hmaps vaddr ⟨Nat.le_refl _, by omega⟩)
  refine ⟨page_ne_zero.mp fun h0 => vbase_ne_zero hj.setUp j ?_, hj.setUp⟩
  have hle := UInt32.le_iff_toNat_le.mp (slotOf_spec hj.slot).1
  rw [h0, UInt32.toNat_zero] at hle
  exact UInt32.toNat_inj.mp (Nat.le_zero.mp hle)

/-- The first byte is as far inside the frames as it is in its page, and the last one is still
inside. -/
theorem Loading.start (h : Loading as vaddr sz regions r as' r')
    (hmaps : ∀ va, InRange vaddr sz va → Maps as' (slotFor as) base vaddr va)
    (hp : 4096 ≤ vaddr.toNat) :
    base = ((slotFor as).range as').paddr + (vaddr - (vaddr &&& pageFrame)) ∧
      vaddr.toNat % 4096 + sz.toNat ≤ roundup sz.toNat := by
  have hpos := h.range.pos
  have htop := h.range.top
  obtain ⟨hpages, -, hmax⟩ := h.range.pages
  have hb := (aligned_iff _).mp (h.placed.aligned h.aligned (slotFor as))
  have hslot := (h.slot hp).2
  generalize hk : (slotFor as).range as' = range at hb hslot ⊢
  obtain ⟨j, paddr, hj, hphys, -⟩ := maps_iff.mp (hmaps vaddr ⟨Nat.le_refl _, by omega⟩)
  have hpaddr := (aligned_iff _).mp hj.page
  have hself : base + (vaddr - vaddr) = base := by grind
  rw [hself] at hphys
  have hinside : ∀ i < sz.toNat,
      ((base - range.paddr).toNat + i) % 4294967296 < roundup sz.toNat := by
    intro i hi
    obtain ⟨hin, hsub⟩ := inRange_add h.range hi
    obtain ⟨-, -, -, -, hhas⟩ := maps_iff.mp (hmaps _ hin)
    have hi32 := h.range.toNat_ofNat hi
    have hcomm : base + UInt32.ofNat i - range.paddr = base - range.paddr + UInt32.ofNat i := by
      grind
    rw [hsub, hk, Range.Has, hcomm, UInt32.toNat_add, hi32, hslot, hpages] at hhas
    exact hhas
  have hle := add_le_of_inside hpos (by omega) (base - range.paddr).toNat_lt hinside
  have hoff := toNat_sub_page vaddr
  have hmod : (base - range.paddr).toNat % 4096 = vaddr.toNat % 4096 := by
    rw [← hphys, UInt32.toNat_sub, UInt32.toNat_add, hoff]
    omega
  have hlt : (base - range.paddr).toNat < 4096 := by
    unfold roundup at hle
    omega
  have heq : base - range.paddr = vaddr - (vaddr &&& pageFrame) := by
    apply UInt32.toNat_inj.mp
    rw [hoff]
    omega
  refine ⟨by grind, ?_⟩
  have hval := congrArg UInt32.toNat heq
  rw [hoff] at hval
  omega

/-- In the second slot, no page is one of the first. -/
theorem Loading.apart (h : Loading as vaddr sz regions r as' r')
    (hmaps : ∀ va, InRange vaddr sz va → Maps as' (slotFor as) base vaddr va)
    (hp : 4096 ≤ vaddr.toNat) (h1 : as.asVbase1 ≠ 0) (hva : InRange vaddr sz va) :
    ¬ (as.asVbase1 ≤ va &&& pageFrame ∧
      va &&& pageFrame < as.asVbase1 + as.asNpages1 * pageSize) := by
  intro hx
  obtain ⟨hlow, hhigh⟩ := hx
  have hstart := (h.start hmaps hp).1
  have hfor : slotFor as = .two := if_neg h1
  have hone := withRegion_one vaddr sz regions h1
  have hv1 : as'.asVbase1 = as.asVbase1 := h.placed.alike.vbase1.trans hone.1
  have hn1 : as'.asNpages1 = as.asNpages1 := h.placed.alike.npages1.trans hone.2
  obtain ⟨j, paddr, hj, hphys, -⟩ := maps_iff.mp (hmaps va hva)
  have hslot : slotOf as' (va &&& pageFrame) = some .one := if_pos ⟨by
    rw [Slot.vbase, hv1]; exact hlow, by rw [Slot.vbase, hv1, hn1]; exact hhigh⟩
  obtain rfl : j = .one := Option.some.inj (hj.slot.symm.trans hslot)
  have hpaddr := hj.leads
  have hsecond : as'.asPbase2 = as'.asPbase1 + as.asNpages1 * pageSize := by
    rw [h.placed.second, h.placed.first, hone.2]
  rw [hfor] at hstart
  simp only [Slot.range, Slot.vbase, hv1] at hpaddr hstart
  rw [hpaddr, hstart, hsecond] at hphys
  -- the second slot begins where the first one ends, so below `va`
  have hend : vaddr &&& pageFrame = as.asVbase1 + as.asNpages1 * pageSize := by grind
  rw [← hend] at hhigh
  have hlt := UInt32.lt_iff_toNat_lt.mp hhigh
  rw [toNat_and_pageFrame, toNat_and_pageFrame] at hlt
  have hle := hva.low
  omega

theorem Covered.coverable (h : Loading as vaddr sz regions r as' r')
    (hc : Covered as' (slotFor as) vaddr sz) : Coverable as vaddr sz regions := by
  obtain ⟨hp, hset⟩ := hc.page h.range
  obtain ⟨hone, htwo, -⟩ := setUp_iff.mp hset
  obtain ⟨base, hmaps⟩ := hc
  refine ⟨hp, (h.start hmaps hp).2, fun k _ hstack => (h.placed.alike.defined k).mp ?_,
    fun h1 va hva => h.apart hmaps hp h1 hva⟩
  cases k with
  | one => exact hone
  | two => exact htwo
  | stack => exact absurd rfl hstack

/-! ## What can be mapped -/

/-- The region's own slot comes first for every page of it. -/
theorem Coverable.slotOf (h : Loading as vaddr sz regions r as' r')
    (hc : Coverable as vaddr sz regions) (hva : InRange vaddr sz va) :
    Spaces.slotOf as' (va &&& pageFrame) = some (slotFor as) := by
  obtain ⟨hv, hn⟩ := h.slot hc.page
  obtain ⟨hpages, -, hmax⟩ := h.range.pages
  have htop := h.range.top
  have hres := hc.residue
  have hlow := hva.low
  have hhigh := hva.high
  have hin : (slotFor as).vbase as' ≤ va &&& pageFrame ∧ va &&& pageFrame <
      (slotFor as).vbase as' + ((slotFor as).range as').npages * pageSize := by
    rw [hv, hn, UInt32.le_iff_toNat_le, UInt32.lt_iff_toNat_lt, UInt32.toNat_add, UInt32.toNat_mul,
      pageSize_toNat, toNat_and_pageFrame, toNat_and_pageFrame, hpages]
    omega
  by_cases h1 : as.asVbase1 = 0
  · have hfor : slotFor as = .one := if_pos h1
    rw [hfor] at hin ⊢
    exact if_pos hin
  · have hfor : slotFor as = .two := if_neg h1
    have hone := withRegion_one vaddr sz regions h1
    have hapart := hc.apart h1 va hva
    rw [← hone.1, ← hone.2, ← h.placed.alike.vbase1, ← h.placed.alike.npages1] at hapart
    rw [hfor] at hin ⊢
    exact (if_neg hapart).trans (if_pos hin)

theorem Coverable.setUp (h : Loading as vaddr sz regions r as' r')
    (hc : Coverable as vaddr sz regions) : setUp as' = true := by
  obtain ⟨hpages, hle, -⟩ := h.range.pages
  have hpos := h.range.pos
  have hown : Defined (withRegion as vaddr sz regions) (slotFor as) := by
    obtain ⟨hv, hn⟩ := withRegion_slot regions h.defined (page_ne_zero.mpr hc.page)
    refine ⟨by rw [hv]; exact page_ne_zero.mpr hc.page, by rw [hv]; exact pageFrame_idem vaddr, ?_⟩
    rw [hn]
    intro h0
    rw [h0, UInt32.toNat_zero] at hpages
    omega
  have hall : ∀ k : Slot, k ≠ .stack → Defined (withRegion as vaddr sz regions) k := by
    intro k hk
    by_cases hfor : k = slotFor as
    · rw [hfor]
      exact hown
    · exact hc.other k hfor hk
  refine setUp_iff.mpr ⟨?_, ?_, h.placed.loaded, h.placed.aligned h.aligned⟩
  · exact (h.placed.alike.defined .one).mpr (hall .one (by decide))
  · exact (h.placed.alike.defined .two).mpr (hall .two (by decide))

theorem Coverable.maps (h : Loading as vaddr sz regions r as' r')
    (hc : Coverable as vaddr sz regions) (hva : InRange vaddr sz va) :
    Maps as' (slotFor as) (((slotFor as).range as').paddr + (vaddr - (vaddr &&& pageFrame))) vaddr
      va := by
  obtain ⟨hv, hn⟩ := h.slot hc.page
  obtain ⟨hpages, -, hmax⟩ := h.range.pages
  have htop := h.range.top
  have hres := hc.residue
  have hlow := hva.low
  have hhigh := hva.high
  have hb := (aligned_iff _).mp (h.placed.aligned h.aligned (slotFor as))
  refine maps_iff.mpr ⟨slotFor as, _, ⟨hc.setUp h, pageFrame_idem va, hc.slotOf h hva, rfl, ?_⟩,
    ?_, ?_⟩
  · rw [hv, aligned_iff, UInt32.toNat_add, UInt32.toNat_sub, toNat_and_pageFrame,
      toNat_and_pageFrame]
    omega
  · rw [hv]
    grind
  · have hsub : ((slotFor as).range as').paddr + (vaddr - (vaddr &&& pageFrame)) + (va - vaddr) -
        ((slotFor as).range as').paddr = va - (vaddr &&& pageFrame) := by grind
    rw [Range.Has, hsub, hn, hpages, UInt32.toNat_sub, toNat_and_pageFrame]
    omega

/-- Faults in a region that is defined and loaded lead into its frames, byte after byte, exactly
when it is coverable. -/
theorem covered_iff (as : Addrspace) (vaddr sz : UInt32) (regions : List (UInt32 × UInt32))
    (r : Ram) (as' : Addrspace) (r' : Ram) (h : Loading as vaddr sz regions r as' r') :
    Covered as' (slotFor as) vaddr sz ↔ Coverable as vaddr sz regions :=
  ⟨fun hc => hc.coverable h, fun hc => ⟨_, fun _ hva => hc.maps h hva⟩⟩

/-! ## Two regions at boot -/

/-- Text and data at addresses that are whole pages. -/
def textFirst : Addrspace := { asCreate with asVbase1 := 0x400000, asNpages1 := 1 }

def bootRam : Ram := ⟨0x20000, 0x200000⟩

def loadedSpace (vaddr sz : UInt32) : Addrspace :=
  { withRegion textFirst vaddr sz [] with
    asPbase1 := 0x20000, asPbase2 := 0x21000, asStackpbase := 0x22000 }

theorem loading_data (vaddr : UInt32) (h : vaddr = 0x10000000 ∨ vaddr = 0x10000ffc) :
    Loading textFirst vaddr 8 [] bootRam (loadedSpace vaddr 8) ⟨0x2e000, 0x200000⟩ := by
  rcases h with rfl | rfl
  · exact ⟨⟨by decide, by decide⟩, by decide, by decide, by decide⟩
  · exact ⟨⟨by decide, by decide⟩, by decide, by decide, by decide⟩

theorem covered_iff_data : Covered (loadedSpace 0x10000000 8) (slotFor textFirst) 0x10000000 8 ↔
    Coverable textFirst 0x10000000 8 [] :=
  covered_iff textFirst 0x10000000 8 [] bootRam _ _ (loading_data 0x10000000 (.inl rfl))

/-- Eight bytes across the end of a page: the last four are not there. -/
theorem second_page_missing :
    vmFault (some (loadedSpace 0x10000ffc 8)) vmFaultRead 0x10001000 = some (.error .EFAULT) ∧
      ¬ Covered (loadedSpace 0x10000ffc 8) (slotFor textFirst) 0x10000ffc 8 := by
  refine ⟨rfl, fun h => ?_⟩
  exact absurd (h.coverable (loading_data 0x10000ffc (.inr rfl))).residue (by decide)

end Os161.Vm.Spaces

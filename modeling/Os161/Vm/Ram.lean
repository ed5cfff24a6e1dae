import Mathlib.Tactic.ByContra
import Os161.Lib.Runs

/-! # Physical memory in pages

`ram.c`, the page allocations of `dumbvm.c` and the large half of `kmalloc`. All arithmetic is
that of 32-bit words. -/
namespace Os161.Vm

/-- The two counters of `ram.c`. -/
structure Ram where
  firstpaddr : UInt32
  lastpaddr : UInt32
  deriving DecidableEq

def pageSize : UInt32 := 4096
def pageFrame : UInt32 := 0xfffff000
def mipsKseg0 : UInt32 := 0x80000000
def largestSubpageSize : UInt32 := 2048
def dumbvmStackpages : UInt32 := 12

def paddrToKvaddr (paddr : UInt32) : UInt32 := paddr + mipsKseg0

def ramBootstrap (mipsRamsize firstfree : UInt32) : Ram where
  firstpaddr := firstfree - mipsKseg0
  lastpaddr := if mipsRamsize > 508 * 1024 * 1024 then 508 * 1024 * 1024 else mipsRamsize

def ramStealmem (npages : UInt32) (r : Ram) : UInt32 × Ram :=
  let size := npages * pageSize
  if r.firstpaddr + size > r.lastpaddr then (0, r)
  else (r.firstpaddr, { r with firstpaddr := r.firstpaddr + size })

/-- `struct addrspace`. -/
structure Addrspace where
  asVbase1 : UInt32
  asPbase1 : UInt32
  asNpages1 : UInt32
  asVbase2 : UInt32
  asPbase2 : UInt32
  asNpages2 : UInt32
  asStackpbase : UInt32
  deriving DecidableEq

def asCreate : Addrspace := ⟨0, 0, 0, 0, 0, 0, 0⟩

inductive Errno where
  | EINVAL | ENOMEM | EFAULT | EUNIMP
  deriving DecidableEq

/-- The pages of a region of `sz` bytes. -/
def regionPages (sz : UInt32) : UInt32 := ((sz + pageSize - 1) &&& pageFrame) / pageSize

def asDefineRegion (as : Addrspace) (vaddr sz : UInt32) : Option Errno × Addrspace :=
  let vaddr := vaddr &&& pageFrame
  let npages := regionPages sz
  if as.asVbase1 = 0 then (none, { as with asVbase1 := vaddr, asNpages1 := npages })
  else if as.asVbase2 = 0 then (none, { as with asVbase2 := vaddr, asNpages2 := npages })
  else (some .EUNIMP, as)

section Allocations

-- the state of the page allocator, and `getppages` on it
variable {R : Type} (getppages : UInt32 → R → UInt32 × R)

def allocKpages (npages : UInt32) (r : R) : UInt32 × R :=
  let (pa, r) := getppages npages r
  if pa = 0 then (0, r) else (paddrToKvaddr pa, r)

def kmalloc (subpageKmalloc : UInt32 → R → UInt32 × R) (sz : UInt32) (r : R) : UInt32 × R :=
  if sz ≥ largestSubpageSize then
    let npages := (sz + pageSize - 1) / pageSize
    allocKpages getppages npages r
  else subpageKmalloc sz r

/-- A space that has memory already fails an assertion: no result. -/
def asPrepareLoad (as : Addrspace) (r : R) : Option (Option Errno × Addrspace × R) :=
  if as.asPbase1 = 0 ∧ as.asPbase2 = 0 ∧ as.asStackpbase = 0 then
    let (pbase1, r) := getppages as.asNpages1 r
    let as := { as with asPbase1 := pbase1 }
    if pbase1 = 0 then some (some .ENOMEM, as, r)
    else
      let (pbase2, r) := getppages as.asNpages2 r
      let as := { as with asPbase2 := pbase2 }
      if pbase2 = 0 then some (some .ENOMEM, as, r)
      else
        let (stackpbase, r) := getppages dumbvmStackpages r
        let as := { as with asStackpbase := stackpbase }
        if stackpbase = 0 then some (some .ENOMEM, as, r) else some (none, as, r)
  else none

end Allocations

/-! ## Arithmetic of pages -/

@[simp] theorem pageSize_toNat : pageSize.toNat = 4096 := rfl

theorem and_pageFrame (n : Nat) (h : n < 4294967296) :
    n &&& 4294963200 = n / 4096 * 4096 := by
  have hmask : (4294963200 : Nat) = (2 ^ 20 - 1) <<< 12 := by decide
  have hdiv : n / 4096 * 4096 = (n >>> 12) <<< 12 := by
    rw [Nat.shiftLeft_eq, Nat.shiftRight_eq_div_pow]
  rw [hmask, hdiv]
  apply Nat.eq_of_testBit_eq
  intro i
  rw [Nat.testBit_and, Nat.testBit_shiftLeft, Nat.testBit_shiftLeft, Nat.testBit_shiftRight,
    Nat.testBit_two_pow_sub_one]
  by_cases hi : 12 ≤ i
  · have hsum : 12 + (i - 12) = i := by omega
    rw [hsum]
    by_cases hi' : i - 12 < 20
    · simp [hi, hi']
    · have hpow : 2 ^ 32 ≤ 2 ^ i := Nat.pow_le_pow_right (by decide) (by omega)
      have hbig : n.testBit i = false := Nat.testBit_lt_two_pow (Nat.lt_of_lt_of_le h hpow)
      simp [hbig]
  · simp [hi]

theorem toNat_and_pageFrame (x : UInt32) :
    (x &&& pageFrame).toNat = x.toNat / 4096 * 4096 := by
  rw [UInt32.toNat_and]
  exact and_pageFrame _ x.toNat_lt

/-- Both ways of counting pages give the same number. -/
theorem regionPages_eq (sz : UInt32) : regionPages sz = (sz + pageSize - 1) / pageSize := by
  apply UInt32.toNat_inj.mp
  rw [regionPages, UInt32.toNat_div, UInt32.toNat_div, toNat_and_pageFrame, pageSize_toNat]
  omega

/-- `sz` rounded up to whole pages. -/
def roundup (sz : Nat) : Nat := (sz + 4095) / 4096 * 4096

theorem regionPages_toNat {sz : UInt32} (h : sz.toNat + 4095 < 4294967296) :
    (regionPages sz).toNat * 4096 = roundup sz.toNat := by
  have hsum : (sz + pageSize - 1).toNat = sz.toNat + 4095 := by
    rw [UInt32.toNat_sub, UInt32.toNat_add, pageSize_toNat]
    change (2 ^ 32 - 1 + (sz.toNat + 4096) % 2 ^ 32) % 2 ^ 32 = _
    omega
  rw [regionPages_eq, UInt32.toNat_div, hsum, pageSize_toNat, roundup]

theorem regionPages_wrap {sz : UInt32} (h : ¬ sz.toNat + 4095 < 4294967296) :
    regionPages sz = 0 := by
  have hlt := sz.toNat_lt
  have hsum : (sz + pageSize - 1).toNat = sz.toNat + 4095 - 4294967296 := by
    rw [UInt32.toNat_sub, UInt32.toNat_add, pageSize_toNat]
    change (2 ^ 32 - 1 + (sz.toNat + 4096) % 2 ^ 32) % 2 ^ 32 = _
    omega
  apply UInt32.toNat_inj.mp
  rw [regionPages_eq, UInt32.toNat_div, hsum, pageSize_toNat]
  change _ = 0
  omega

end Os161.Vm

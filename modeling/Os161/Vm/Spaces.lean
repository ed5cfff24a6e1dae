import Os161.Vm.Ram

/-! # Address spaces

`vm_fault` and the address space operations of `dumbvm.c`. The frames that `ram_stealmem` hands
out are given, and recorded with the space they are for. -/
namespace Os161.Vm.Spaces
open Os161.Runs

def vmFaultRead : UInt32 := 0
def vmFaultWrite : UInt32 := 1
def vmFaultReadonly : UInt32 := 2
def userstack : UInt32 := 0x80000000
def tlbloPpage : UInt32 := 0xfffff000
def tlbloDirty : UInt32 := 0x400
def tlbloValid : UInt32 := 0x200

/-! ## Faults -/

/-- What `vm_fault` asserts of the space. -/
def setUp (as : Addrspace) : Bool :=
  as.asVbase1 ≠ 0 && as.asPbase1 ≠ 0 && as.asNpages1 ≠ 0 && as.asVbase2 ≠ 0 && as.asPbase2 ≠ 0 &&
    as.asNpages2 ≠ 0 && as.asStackpbase ≠ 0 && as.asVbase1 &&& pageFrame = as.asVbase1 &&
    as.asPbase1 &&& pageFrame = as.asPbase1 && as.asVbase2 &&& pageFrame = as.asVbase2 &&
    as.asPbase2 &&& pageFrame = as.asPbase2 && as.asStackpbase &&& pageFrame = as.asStackpbase

/-- The dispatch of `vm_fault`. -/
def paddrOf (as : Addrspace) (faultaddress : UInt32) : Option UInt32 :=
  let vbase1 := as.asVbase1
  let vtop1 := vbase1 + as.asNpages1 * pageSize
  let vbase2 := as.asVbase2
  let vtop2 := vbase2 + as.asNpages2 * pageSize
  let stackbase := userstack - dumbvmStackpages * pageSize
  let stacktop := userstack
  if faultaddress ≥ vbase1 ∧ faultaddress < vtop1 then some ((faultaddress - vbase1) + as.asPbase1)
  else if faultaddress ≥ vbase2 ∧ faultaddress < vtop2 then
    some ((faultaddress - vbase2) + as.asPbase2)
  else if faultaddress ≥ stackbase ∧ faultaddress < stacktop then
    some ((faultaddress - stackbase) + as.asStackpbase)
  else none

inductive FaultResult where
  | error (e : Errno)
  | install (ehi elo : UInt32)

/-- `vm_fault` up to its loop over the TLB. No result is a panic. -/
def vmFault (as : Option Addrspace) (faulttype faultaddress : UInt32) : Option FaultResult :=
  let faultaddress := faultaddress &&& pageFrame
  if faulttype = vmFaultReadonly then none
  else if faulttype ≠ vmFaultRead ∧ faulttype ≠ vmFaultWrite then some (.error .EINVAL)
  else
    match as with
    | none => some (.error .EFAULT)
    | some as =>
      if setUp as then
        match paddrOf as faultaddress with
        | none => some (.error .EFAULT)
        | some paddr =>
          if paddr &&& pageFrame = paddr then
            some (.install faultaddress (paddr ||| tlbloDirty ||| tlbloValid))
          else none
      else none

/-- The loop: the first entry that is not valid is written, if there is one. -/
def tlbWrite (ehi elo : UInt32) : List (UInt32 × UInt32) → Option (List (UInt32 × UInt32))
  | [] => none
  | e :: rest =>
    if e.2 &&& tlbloValid ≠ 0 then (tlbWrite ehi elo rest).map (e :: ·)
    else some ((ehi, elo) :: rest)

/-! ## Frames -/

structure Range where
  paddr : UInt32
  npages : UInt32
  deriving DecidableEq

/-- The byte at `x` is in the range. -/
def Range.Has (r : Range) (x : UInt32) : Prop := (x - r.paddr).toNat < r.npages.toNat * 4096

def Range.Disjoint (r r' : Range) : Prop := ∀ x, r.Has x → ¬ r'.Has x

/-- A range and the space it was obtained for. -/
structure Obtained where
  owner : Nat
  range : Range
  deriving DecidableEq

/-- What `ram_stealmem` answers next, and the ranges obtained. -/
structure Frames where
  answers : List UInt32
  owner : Nat
  obtained : List Obtained

def Frames.getppages (npages : UInt32) (f : Frames) : UInt32 × Frames :=
  (f.answers.headD 0,
    { f with
      answers := f.answers.tail
      obtained :=
        if f.answers.headD 0 = 0 then f.obtained
        else ⟨f.owner, ⟨f.answers.headD 0, npages⟩⟩ :: f.obtained })

/-! ## Copies -/

def memmove (mem : UInt32 → UInt8) (dst src len : UInt32) : UInt32 → UInt8 :=
  fun x => if x - dst < len then mem (x - dst + src) else mem x

/-- The `memmove`s of `as_copy`, on memory as the kernel sees it. -/
def copyFrames (old new : Addrspace) (mem : UInt32 → UInt8) : UInt32 → UInt8 :=
  let mem := memmove mem (paddrToKvaddr new.asPbase1) (paddrToKvaddr old.asPbase1)
    (old.asNpages1 * pageSize)
  let mem := memmove mem (paddrToKvaddr new.asPbase2) (paddrToKvaddr old.asPbase2)
    (old.asNpages2 * pageSize)
  memmove mem (paddrToKvaddr new.asStackpbase) (paddrToKvaddr old.asStackpbase)
    (dumbvmStackpages * pageSize)

/-- The space that `as_copy` fills in before it prepares it. -/
def asCopy.regions (old : Addrspace) : Addrspace :=
  { asCreate with
    asVbase1 := old.asVbase1
    asNpages1 := old.asNpages1
    asVbase2 := old.asVbase2
    asNpages2 := old.asNpages2 }

/-- The new space, if there was memory for it. No result is a failed assertion. -/
def asCopy (old : Addrspace) (f : Frames) : Option (Option Addrspace × Frames) :=
  match asPrepareLoad Frames.getppages (asCopy.regions old) f with
  | none => none
  | some (some _, _, f) => some (none, f)
  | some (none, new, f) =>
    if new.asPbase1 ≠ 0 ∧ new.asPbase2 ≠ 0 ∧ new.asStackpbase ≠ 0 then some (some new, f)
    else none

/-! ## Any number of spaces -/

/-- A translation written to the TLB. -/
structure Installed where
  space : Nat
  ehi : UInt32
  elo : UInt32

/-- A successful `as_copy` with the memory before and after it. -/
structure Copy where
  old : Addrspace
  new : Addrspace
  before : UInt32 → UInt8
  after : UInt32 → UInt8

/-- A space is known by its number; one that was destroyed is `none`. -/
structure State where
  spaces : List (Option Addrspace)
  tlb : List (UInt32 × UInt32)
  mem : UInt32 → UInt8
  obtained : List Obtained
  installed : List Installed
  copies : List Copy

/-- `memory` says whether `kmalloc` has memory for the space. -/
inductive Act where
  | asCreate (memory : Bool)
  | asDestroy (a : Nat)
  | asActivate
  | asDefineRegion (a : Nat) (vaddr sz : UInt32)
  | asPrepareLoad (a : Nat) (answers : List UInt32)
  | asCopy (a : Nat) (memory : Bool) (answers : List UInt32)
  | vmFault (a : Option Nat) (faulttype faultaddress : UInt32)
  | store (x : UInt32) (v : UInt8)

namespace State

def space (s : State) (a : Nat) : Option Addrspace := (s.spaces[a]?).join

def setSpace (s : State) (a : Nat) (as : Option Addrspace) : State :=
  { s with spaces := s.spaces.set a as }

/-- `as_activate`. -/
def invalidate (s : State) : State :=
  { s with tlb := (List.range 64).map fun i => ((0x80000 + UInt32.ofNat i) <<< 12, 0) }

def fault (s : State) (a : Nat) (r : FaultResult) : State :=
  match r with
  | .error _ => s
  | .install ehi elo =>
    match tlbWrite ehi elo s.tlb with
    | none => s
    | some tlb => { s with tlb := tlb, installed := ⟨a, ehi, elo⟩ :: s.installed }

end State

def step (s : State) : Act → Option State
  | .asCreate memory =>
    some { s with spaces := s.spaces ++ if memory then [some Vm.asCreate] else [] }
  | .asDestroy a => (s.space a).map fun _ => s.setSpace a none
  | .asActivate => some s.invalidate
  | .asDefineRegion a vaddr sz =>
    (s.space a).map fun as => s.setSpace a (some (Vm.asDefineRegion as vaddr sz).2)
  | .asPrepareLoad a answers =>
    match s.space a with
    | none => none
    | some as =>
      match Vm.asPrepareLoad Frames.getppages as ⟨answers, a, s.obtained⟩ with
      | none => none
      | some r => some { s.setSpace a (some r.2.1) with obtained := r.2.2.obtained }
  | .asCopy a memory answers =>
    match s.space a with
    | none => none
    | some old =>
      if memory then
        match Spaces.asCopy old ⟨answers, s.spaces.length, s.obtained⟩ with
        | none => none
        | some (none, f) => some { s with spaces := s.spaces ++ [none], obtained := f.obtained }
        | some (some new, f) => some { s with
            spaces := s.spaces ++ [some new]
            obtained := f.obtained
            mem := copyFrames old new s.mem
            copies := ⟨old, new, s.mem, copyFrames old new s.mem⟩ :: s.copies }
      else some s
  | .vmFault none faulttype faultaddress =>
    (Spaces.vmFault none faulttype faultaddress).map fun _ => s
  | .vmFault (some a) faulttype faultaddress =>
    match s.space a with
    | none => none
    | some as => (Spaces.vmFault (some as) faulttype faultaddress).map (s.fault a)
  | .store x v => some { s with mem := fun y => if y = x then v else s.mem y }

/-- No spaces, and nothing handed out to one. -/
def boot (mem : UInt32 → UInt8) : State :=
  State.invalidate ⟨[], [], mem, [], [], []⟩

end Os161.Vm.Spaces

import Os161.User.Copies
import Os161.Vm.Coverage

/-! # Loading executables

`load_elf` into a new space. Every store of a segment may fault, and a fault in a space that is
not set up is a failed assertion of `vm_fault`. -/
namespace Os161.Vm.Spaces

inductive LoadError where
  | vop (code : Nat)
  | vm (e : Errno)
  | efault
  | enoexec
  deriving DecidableEq

/-- The length of all blocks. -/
def total (ns : List Nat) : Nat := ns.foldr (· + ·) 0

/-- An executable: what `VOP_READ` reads into kernel memory, and for user memory the lengths of the
blocks that it hands to `uiomove`. -/
structure File where
  read : Int → Nat → Except Nat (List UInt8)
  blocks : Int → Nat → List Nat × Option Nat
  read_le : ∀ o n l, read o n = .ok l → l.length ≤ n
  blocks_le : ∀ o n, total (blocks o n).1 ≤ n

/-! ## Headers -/

def half (l : List UInt8) (o : Nat) : UInt16 :=
  (l.getD o 0).toUInt16 <<< 8 ||| (l.getD (o + 1) 0).toUInt16

def word (l : List UInt8) (o : Nat) : UInt32 :=
  (half l o).toUInt32 <<< 16 ||| (half l (o + 2)).toUInt32

structure Ehdr where
  eIdent : List UInt8
  eType : UInt16
  eMachine : UInt16
  eVersion : UInt32
  eEntry : UInt32
  ePhoff : UInt32
  ePhentsize : UInt16
  ePhnum : UInt16

structure Phdr where
  pType : UInt32
  pOffset : UInt32
  pVaddr : UInt32
  pFilesz : UInt32
  pMemsz : UInt32

/-- `Elf32_Ehdr` has 52 bytes. -/
def Ehdr.ofBytes (l : List UInt8) : Ehdr where
  eIdent := l.take 16
  eType := half l 16
  eMachine := half l 18
  eVersion := word l 20
  eEntry := word l 24
  ePhoff := word l 28
  ePhentsize := half l 42
  ePhnum := half l 44

/-- `Elf32_Phdr` has 32 bytes. -/
def Phdr.ofBytes (l : List UInt8) : Phdr where
  pType := word l 0
  pOffset := word l 4
  pVaddr := word l 8
  pFilesz := word l 16
  pMemsz := word l 20

/-- Magic number, class, byte order and version. -/
def identStart : List UInt8 := [0x7f, 0x45, 0x4c, 0x46, 1, 2, 1]

/-- A 32-bit executable for MIPS. -/
def Ehdr.valid (eh : Ehdr) : Bool :=
  eh.eIdent.take 7 = identStart && eh.eVersion = 1 && eh.eType = 2 && eh.eMachine = 8

/-- A read through `mk_kuio` that gets all it asks for. -/
def File.readAll (f : File) (offset : Int) (size : Nat) : Except LoadError (List UInt8) :=
  match f.read offset size with
  | .error e => .error (.vop e)
  | .ok l => if l.length ≠ size then .error .enoexec else .ok l

def readEhdr (f : File) : Except LoadError Ehdr :=
  match f.readAll 0 52 with
  | .error e => .error e
  | .ok l => if (Ehdr.ofBytes l).valid then .ok (.ofBytes l) else .error .enoexec

/-- Program header `i`; the offset is an `off_t`. -/
def readPhdr (f : File) (eh : Ehdr) (i : Nat) : Except LoadError Phdr :=
  match f.readAll (eh.ePhoff + UInt32.ofNat i * eh.ePhentsize.toUInt32).toInt32.toInt 32 with
  | .error e => .error e
  | .ok l => .ok (.ofBytes l)

/-- The `switch` on the type of a segment: whether it is to be loaded. -/
def Phdr.load (ph : Phdr) : Except LoadError Bool :=
  if ph.pType = 0 ∨ ph.pType = 6 ∨ ph.pType = 0x70000000 then .ok false
  else if ph.pType = 1 then .ok true
  else .error .enoexec

/-! ## Copies into the space -/

/-- A store at `a` succeeds: it is mapped, and the TLB has an entry for it or a free one. -/
def reachable (as : Addrspace) (room : UInt32 → Bool) (a : Nat) : Bool :=
  match vmFault (some as) vmFaultWrite (UInt32.ofNat a) with
  | some (.install _ _) => room (UInt32.ofNat a)
  | _ => false

/-- `copyout` of `n` bytes. No result is a panic in `vm_fault`; there is no entry in the TLB that
would spare a space that is not set up the fault. -/
def copyoutTo (as : Addrspace) (room : UInt32 → Bool) (p : UInt32) (n : Nat) :
    Option (Option LoadError) :=
  let c := User.copy (reachable as room) (fun _ => ()) p.toNat n
  if c.touched.any fun a => (vmFault (some as) vmFaultWrite (UInt32.ofNat a)).isNone then none
  else some (c.result.map fun _ => .efault)

/-- Go on unless there was a panic or an error. -/
def andThen (c rest : Option (Option LoadError)) : Option (Option LoadError) :=
  match c with
  | none => none
  | some (some e) => some (some e)
  | some none => rest

/-- `uiomove` of one block after another. -/
def moveBlocks (as : Addrspace) (room : UInt32 → Bool) : UInt32 → List Nat →
    Option (Option LoadError)
  | _, [] => some none
  | p, n :: rest =>
    if n = 0 then moveBlocks as room p rest
    else
      andThen (copyoutTo as room p n) (moveBlocks as room (p + UInt32.ofNat n) rest)

/-- The blocks of `uiomovezeros`. -/
def zeroBlocks (n : Nat) : List Nat := (List.range ((n + 15) / 16)).map fun i => min 16 (n - 16 * i)

/-- `load_segment` from the return of `VOP_READ` on, which moved `moved` bytes. -/
def loadSegment.fill (as : Addrspace) (room : UInt32 → Bool) (vaddr : UInt32)
    (memsize filesize moved : Nat) (result : Option Nat) : Option (Option LoadError) :=
  match result with
  | some e => some (some (.vop e))
  | none =>
    if filesize - moved ≠ 0 then some (some .enoexec)
    else if memsize - filesize > 0 then
      moveBlocks as room (vaddr + UInt32.ofNat filesize) (zeroBlocks (memsize - filesize))
    else some none

def loadSegment (f : File) (as : Addrspace) (room : UInt32 → Bool) (ph : Phdr) :
    Option (Option LoadError) :=
  let memsize := ph.pMemsz.toNat
  let filesize := if ph.pFilesz.toNat > memsize then memsize else ph.pFilesz.toNat
  let (blocks, result) := f.blocks ph.pOffset.toInt32.toInt filesize
  andThen (moveBlocks as room ph.pVaddr blocks)
    (loadSegment.fill as room ph.pVaddr memsize filesize (total blocks) result)

/-! ## load_elf -/

section Load

variable (f : File) (eh : Ehdr)

/-- The first loop over the headers. -/
def defineSegments : List Nat → Addrspace → Except LoadError Addrspace
  | [], as => .ok as
  | i :: rest, as =>
    match readPhdr f eh i with
    | .error e => .error e
    | .ok ph =>
      match ph.load with
      | .error e => .error e
      | .ok false => defineSegments rest as
      | .ok true =>
        match asDefineRegion as ph.pVaddr ph.pMemsz with
        | (some e, _) => .error (.vm e)
        | (none, as) => defineSegments rest as

/-- The second loop. -/
def loadSegments (as : Addrspace) (room : UInt32 → Bool) : List Nat → Option (Option LoadError)
  | [] => some none
  | i :: rest =>
    match readPhdr f eh i with
    | .error e => some (some e)
    | .ok ph =>
      match ph.load with
      | .error e => some (some e)
      | .ok false => loadSegments as room rest
      | .ok true => andThen (loadSegment f as room ph) (loadSegments as room rest)

/-- `load_elf` into a space of `as_create`, with its entry point. No result is a failed
assertion. -/
def loadElf (r : Ram) (room : UInt32 → Bool) : Option (Except LoadError (UInt32 × Addrspace)) :=
  match readEhdr f with
  | .error e => some (.error e)
  | .ok eh =>
    match defineSegments f eh (List.range eh.ePhnum.toNat) asCreate with
    | .error e => some (.error e)
    | .ok as =>
      match asPrepareLoad ramStealmem as r with
      | none => none
      | some (some e, _, _) => some (.error (.vm e))
      | some (none, as, _) =>
        (loadSegments f eh as room (List.range eh.ePhnum.toNat)).map fun result =>
          match result with
          | some e => .error e
          | none => .ok (eh.eEntry, as)

end Load

def asDefineStack (as : Addrspace) : Option UInt32 :=
  if as.asStackpbase ≠ 0 then some userstack else none

/-- No assertion fails, neither while the executable is loaded nor in a fault after it. -/
structure Safe (f : File) (r : Ram) (room : UInt32 → Bool) : Prop where
  loading : loadElf f r room ≠ none
  later : ∀ entry as stackptr, loadElf f r room = some (.ok (entry, as)) →
    asDefineStack as = some stackptr → ∀ faulttype va,
      faulttype = vmFaultRead ∨ faulttype = vmFaultWrite → vmFault (some as) faulttype va ≠ none

/-- The segments to be loaded. -/
def loads (f : File) (eh : Ehdr) (is : List Nat) : List Phdr :=
  is.filterMap fun i =>
    match readPhdr f eh i with
    | .error _ => none
    | .ok ph => if ph.pType = 1 then some ph else none

/-- Above page 0 there are just two segments, both with pages. -/
def TwoSegments (f : File) : Prop :=
  ∃ eh a b, readEhdr f = .ok eh ∧ (loads f eh (List.range eh.ePhnum.toNat)).filter
    (fun ph => 4096 ≤ ph.pVaddr.toNat) = [a, b] ∧
      regionPages a.pMemsz ≠ 0 ∧ regionPages b.pMemsz ≠ 0

variable {f : File} {eh : Ehdr} {as as' : Addrspace} {r : Ram} {room : UInt32 → Bool}
  {ph : Phdr} {P : List Phdr}

/-! ## What the first loop leaves -/

/-- The space has the regions of the segments `P`, none of which begins in page 0. -/
inductive Holding (as : Addrspace) : List Phdr → Prop where
  | empty : as.asVbase1 = 0 → as.asVbase2 = 0 → Holding as []
  | one (a : Phdr) : as.asVbase1 = a.pVaddr &&& pageFrame → as.asNpages1 = regionPages a.pMemsz →
      4096 ≤ a.pVaddr.toNat → as.asVbase2 = 0 → Holding as [a]
  | two (a b : Phdr) : as.asVbase1 = a.pVaddr &&& pageFrame → as.asNpages1 = regionPages a.pMemsz →
      4096 ≤ a.pVaddr.toNat → as.asVbase2 = b.pVaddr &&& pageFrame →
      as.asNpages2 = regionPages b.pMemsz → 4096 ≤ b.pVaddr.toNat → Holding as [a, b]

/-- No frames yet. -/
structure Unloaded (as : Addrspace) : Prop where
  pbase1 : as.asPbase1 = 0
  pbase2 : as.asPbase2 = 0
  stackpbase : as.asStackpbase = 0

theorem base_ne_zero {base vaddr : UInt32} (h : base = vaddr &&& pageFrame)
    (hp : 4096 ≤ vaddr.toNat) : base ≠ 0 := by
  rw [h]
  exact page_ne_zero.mpr hp

/-- A region in page 0 leaves its slot free. -/
theorem Holding.define (h : Holding as P)
    (hok : asDefineRegion as ph.pVaddr ph.pMemsz = (none, as')) :
    Holding as' (P ++ [ph].filter fun ph => 4096 ≤ ph.pVaddr.toNat) := by
  unfold asDefineRegion at hok
  dsimp only at hok
  by_cases hpage : 4096 ≤ ph.pVaddr.toNat
  · have hfilter : [ph].filter (fun ph => 4096 ≤ ph.pVaddr.toNat) = [ph] := by simp [hpage]
    rw [hfilter]
    cases h with
    | empty h1 h2 =>
      rw [if_pos h1] at hok
      obtain rfl := (Prod.mk.inj hok).2
      exact .one ph rfl rfl hpage h2
    | one a h1 hn ha h2 =>
      rw [if_neg (base_ne_zero h1 ha), if_pos h2] at hok
      obtain rfl := (Prod.mk.inj hok).2
      exact .two a ph h1 hn ha rfl rfl hpage
    | two a b h1 hn ha h2 hn2 hb =>
      rw [if_neg (base_ne_zero h1 ha), if_neg (base_ne_zero h2 hb)] at hok
      exact absurd (Prod.mk.inj hok).1 (Option.some_ne_none _)
  · have hfilter : [ph].filter (fun ph => 4096 ≤ ph.pVaddr.toNat) = [] := by simp [hpage]
    have hzero : ph.pVaddr &&& pageFrame = 0 := not_not.mp (mt page_ne_zero.mp hpage)
    rw [hfilter, List.append_nil]
    cases h with
    | empty h1 h2 =>
      rw [if_pos h1] at hok
      obtain rfl := (Prod.mk.inj hok).2
      exact .empty hzero h2
    | one a h1 hn ha h2 =>
      rw [if_neg (base_ne_zero h1 ha), if_pos h2] at hok
      obtain rfl := (Prod.mk.inj hok).2
      exact .one a h1 hn ha hzero
    | two a b h1 hn ha h2 hn2 hb =>
      rw [if_neg (base_ne_zero h1 ha), if_neg (base_ne_zero h2 hb)] at hok
      exact absurd (Prod.mk.inj hok).1 (Option.some_ne_none _)

theorem Unloaded.define {vaddr sz : UInt32} (h : Unloaded as) :
    Unloaded (asDefineRegion as vaddr sz).2 := by
  unfold asDefineRegion
  dsimp only
  split_ifs
  · exact ⟨h.pbase1, h.pbase2, h.stackpbase⟩
  · exact ⟨h.pbase1, h.pbase2, h.stackpbase⟩
  · exact h

theorem Phdr.load_true (h : ph.load = .ok true) : ph.pType = 1 := by
  unfold Phdr.load at h
  split_ifs at h with h1 h2
  · cases h
  · exact h2

theorem Phdr.load_false (h : ph.load = .ok false) : ph.pType ≠ 1 := by
  unfold Phdr.load at h
  split_ifs at h with h1
  · intro h2
    rw [h2] at h1
    exact absurd h1 (by decide)
  · cases h

/-- The loop over the headers adds the segments above page 0. -/
theorem Holding.defineSegments {is : List Nat} (h : Holding as P) (hu : Unloaded as)
    (hok : defineSegments f eh is as = .ok as') :
    Holding as' (P ++ (loads f eh is).filter fun ph => 4096 ≤ ph.pVaddr.toNat) ∧ Unloaded as' := by
  induction is generalizing as P with
  | nil =>
    cases hok
    exact ⟨by rw [loads, List.filterMap_nil, List.filter_nil, List.append_nil]; exact h, hu⟩
  | cons i rest ih =>
    rw [Spaces.defineSegments] at hok
    unfold loads
    rw [List.filterMap_cons]
    cases hph : readPhdr f eh i with
    | error e =>
      rw [hph] at hok
      cases hok
    | ok ph =>
      rw [hph] at hok
      dsimp only at hok ⊢
      cases hload : ph.load with
      | error e =>
        rw [hload] at hok
        cases hok
      | ok load =>
        rw [hload] at hok
        cases load with
        | false =>
          rw [if_neg (Phdr.load_false hload)]
          exact ih h hu hok
        | true =>
          rw [if_pos (Phdr.load_true hload)]
          dsimp only at hok ⊢
          cases hdef : asDefineRegion as ph.pVaddr ph.pMemsz with
          | mk result as1 =>
            rw [hdef] at hok
            cases result with
            | some e => cases hok
            | none =>
              have hu1 : Unloaded (asDefineRegion as ph.pVaddr ph.pMemsz).2 := hu.define
              rw [hdef] at hu1
              have hrest := ih (h.define hdef) hu1 hok
              rw [List.append_assoc, ← List.filter_append] at hrest
              exact hrest

theorem Holding.defined_iff (h : Holding as P) : Defined as .one ∧ Defined as .two ↔
    ∃ a b, P = [a, b] ∧ regionPages a.pMemsz ≠ 0 ∧ regionPages b.pMemsz ≠ 0 := by
  cases h with
  | empty h1 h2 =>
    exact iff_of_false (fun hd => hd.1.vbase h1) fun ⟨a, b, hp, _⟩ => nomatch hp
  | one a h1 hn ha h2 =>
    exact iff_of_false (fun hd => hd.2.vbase h2) fun ⟨a, b, hp, _⟩ => nomatch hp
  | two a b h1 hn ha h2 hn2 hb =>
    constructor
    · intro hd
      have hp1 : as.asNpages1 ≠ 0 := hd.1.npages
      have hp2 : as.asNpages2 ≠ 0 := hd.2.npages
      rw [hn] at hp1
      rw [hn2] at hp2
      exact ⟨a, b, rfl, hp1, hp2⟩
    · intro hx
      obtain ⟨_, _, hp, hp1, hp2⟩ := hx
      cases hp
      refine ⟨⟨?_, ?_, ?_⟩, ⟨?_, ?_, ?_⟩⟩
      · rw [Slot.vbase, h1]
        exact page_ne_zero.mpr ha
      · rw [Slot.vbase, h1]
        exact pageFrame_idem _
      · rw [Slot.range, hn]
        exact hp1
      · rw [Slot.vbase, h2]
        exact page_ne_zero.mpr hb
      · rw [Slot.vbase, h2]
        exact pageFrame_idem _
      · rw [Slot.range, hn2]
        exact hp2

/-! ## Faults -/

/-- A fault for a load or a store panics if and only if the space is not set up. -/
theorem vmFault_eq_none {faulttype va : UInt32}
    (ht : faulttype = vmFaultRead ∨ faulttype = vmFaultWrite) :
    vmFault (some as) faulttype va = none ↔ ¬ setUp as = true := by
  have hr : vmFaultRead ≠ vmFaultReadonly := by decide
  rw [vmFault_access ht]
  simp only [vmFault, if_neg hr, ne_eq, not_true_eq_false, false_and, if_false]
  by_cases hset : setUp as = true
  · rw [if_pos hset]
    refine iff_of_false (fun hnone => ?_) (not_not.mpr hset)
    rw [paddrOf_eq] at hnone
    cases hk : slotOf as (va &&& pageFrame) with
    | none =>
      rw [hk] at hnone
      cases hnone
    | some k =>
      rw [hk] at hnone
      have hfa := toNat_pageFrame_eq (pageFrame_idem va)
      have hv := toNat_pageFrame_eq (setUp_spec hset k).1
      have hb := toNat_pageFrame_eq ((setUp_iff.mp hset).2.2.2 k)
      have hpage : (va &&& pageFrame) - k.vbase as + (k.range as).paddr &&& pageFrame =
          (va &&& pageFrame) - k.vbase as + (k.range as).paddr := by
        rw [aligned_iff, UInt32.toNat_add, UInt32.toNat_sub]
        omega
      simp only [Option.map_some, hpage, if_true] at hnone
      cases hnone
  · rw [if_neg hset]
    exact iff_of_true rfl hset

theorem copyoutTo_ne_none (hset : setUp as = true) (p : UInt32) (n : Nat) :
    copyoutTo as room p n ≠ none := by
  have hany : ¬ (User.copy (reachable as room) (fun _ => ()) p.toNat n).touched.any
      (fun a => (vmFault (some as) vmFaultWrite (UInt32.ofNat a)).isNone) = true := by
    rw [List.any_eq_true]
    intro hx
    obtain ⟨a, -, ha⟩ := hx
    exact (vmFault_eq_none (.inr rfl)).mp (Option.isNone_iff_eq_none.mp ha) hset
  rw [copyoutTo, if_neg hany]
  exact Option.some_ne_none _

theorem andThen_ne_none {c rest : Option (Option LoadError)} (hc : c ≠ none) (hrest : rest ≠ none) :
    andThen c rest ≠ none := by
  cases c with
  | none => exact absurd rfl hc
  | some result =>
    cases result with
    | some e => exact Option.some_ne_none _
    | none => exact hrest

theorem moveBlocks_ne_none (hset : setUp as = true) (p : UInt32) (ns : List Nat) :
    moveBlocks as room p ns ≠ none := by
  induction ns generalizing p with
  | nil => exact Option.some_ne_none _
  | cons n rest ih =>
    rw [moveBlocks]
    by_cases h0 : n = 0
    · rw [if_pos h0]
      exact ih p
    · rw [if_neg h0]
      exact andThen_ne_none (copyoutTo_ne_none hset p n) (ih _)

theorem fill_ne_none (hset : setUp as = true) {vaddr : UInt32} {memsize filesize moved : Nat}
    {result : Option Nat} :
    loadSegment.fill as room vaddr memsize filesize moved result ≠ none := by
  cases result with
  | some e => exact Option.some_ne_none _
  | none =>
    rw [loadSegment.fill]
    split_ifs
    · exact Option.some_ne_none _
    · exact moveBlocks_ne_none hset _ _
    · exact Option.some_ne_none _

theorem loadSegment_ne_none (hset : setUp as = true) : loadSegment f as room ph ≠ none := by
  rw [loadSegment]
  exact andThen_ne_none (moveBlocks_ne_none hset _ _) (fill_ne_none hset)

theorem loadSegments_ne_none (hset : setUp as = true) (is : List Nat) :
    loadSegments f eh as room is ≠ none := by
  induction is with
  | nil => exact Option.some_ne_none _
  | cons i rest ih =>
    rw [loadSegments]
    cases readPhdr f eh i with
    | error e => exact Option.some_ne_none _
    | ok ph =>
      dsimp only
      cases ph.load with
      | error e => exact Option.some_ne_none _
      | ok load =>
        cases load with
        | false => exact ih
        | true => exact andThen_ne_none (loadSegment_ne_none hset) ih

/-! ## Executables that are loaded -/

theorem asPrepareLoad_ne_none {R : Type} {getppages : UInt32 → R → UInt32 × R} {r : R}
    (h : Unloaded as) : asPrepareLoad getppages as r ≠ none := by
  unfold asPrepareLoad
  dsimp only
  rw [if_pos ⟨h.pbase1, h.pbase2, h.stackpbase⟩]
  split_ifs
  · exact Option.some_ne_none _
  · exact Option.some_ne_none _
  · exact Option.some_ne_none _
  · exact Option.some_ne_none _

/-- The state of `load_elf` before the second loop. -/
structure Prepares (f : File) (r : Ram) (eh : Ehdr) (as as' : Addrspace) (r' : Ram) : Prop where
  header : readEhdr f = .ok eh
  regions : defineSegments f eh (List.range eh.ePhnum.toNat) asCreate = .ok as
  frames : asPrepareLoad ramStealmem as r = some (none, as', r')

theorem Prepares.loadElf {r' : Ram} (h : Prepares f r eh as as' r') : loadElf f r room =
    (loadSegments f eh as' room (List.range eh.ePhnum.toNat)).map fun result =>
      match result with
      | some e => .error e
      | none => .ok (eh.eEntry, as') := by
  simp only [Spaces.loadElf, h.header, h.regions, h.frames]

theorem Prepares.holding {r' : Ram} (h : Prepares f r eh as as' r') :
    Holding as ((loads f eh (List.range eh.ePhnum.toNat)).filter
      fun ph => 4096 ≤ ph.pVaddr.toNat) :=
  (Holding.defineSegments (.empty rfl rfl) ⟨rfl, rfl, rfl⟩ h.regions).1

/-- It gets there unless there is an error before. -/
theorem prepares_of_no_error (h : ∀ e, loadElf f r room ≠ some (.error e)) :
    ∃ eh as as' r', Prepares f r eh as as' r' := by
  unfold Spaces.loadElf at h
  cases heh : readEhdr f with
  | error e =>
    rw [heh] at h
    exact absurd rfl (h e)
  | ok eh =>
    rw [heh] at h
    dsimp only at h
    cases hdef : defineSegments f eh (List.range eh.ePhnum.toNat) asCreate with
    | error e =>
      rw [hdef] at h
      exact absurd rfl (h e)
    | ok as =>
      rw [hdef] at h
      dsimp only at h
      have hu : Unloaded as := (Holding.defineSegments (.empty rfl rfl) ⟨rfl, rfl, rfl⟩ hdef).2
      cases hload : asPrepareLoad ramStealmem as r with
      | none => exact absurd hload (asPrepareLoad_ne_none hu)
      | some x =>
        rw [hload] at h
        obtain ⟨result, as', r'⟩ := x
        cases result with
        | some e => exact absurd rfl (h (.vm e))
        | none => exact ⟨eh, as, as', r', heh, hdef, hload⟩

theorem Prepares.setUp_iff {r' : Ram} (h : Prepares f r eh as as' r')
    (hr : r.firstpaddr &&& pageFrame = r.firstpaddr) : setUp as' = true ↔ TwoSegments f := by
  have hp := asPrepareLoad_placed h.frames
  have hdefined : setUp as' = true ↔ Defined as .one ∧ Defined as .two := by
    rw [Spaces.setUp_iff, hp.alike.defined, hp.alike.defined]
    exact ⟨fun hs => ⟨hs.1, hs.2.1⟩, fun hd => ⟨hd.1, hd.2, hp.loaded, hp.aligned hr⟩⟩
  rw [hdefined, h.holding.defined_iff]
  constructor
  · intro hx
    obtain ⟨a, b, hP, ha, hb⟩ := hx
    exact ⟨eh, a, b, h.header, hP, ha, hb⟩
  · intro hx
    obtain ⟨eh', a, b, heh, hP, ha, hb⟩ := hx
    obtain rfl := Except.ok.inj (h.header.symm.trans heh)
    exact ⟨a, b, hP, ha, hb⟩

/-- A file that `load_elf` does not refuse is safe exactly if two of its segments, and no more, are
above page 0, and both have pages. -/
theorem safe_iff (f : File) (r : Ram) (hr : r.firstpaddr &&& pageFrame = r.firstpaddr)
    (room : UInt32 → Bool) (h : ∀ e, loadElf f r room ≠ some (.error e)) :
    Safe f r room ↔ TwoSegments f := by
  obtain ⟨eh, as, as', r', hprep⟩ := prepares_of_no_error h
  have hstack : as'.asStackpbase ≠ 0 := (asPrepareLoad_placed hprep.frames).loaded .stack
  rw [← hprep.setUp_iff hr]
  constructor
  · intro hs
    have hload := hs.loading
    have hlater := hs.later eh.eEntry as' userstack
    rw [hprep.loadElf] at h hload hlater
    cases hseg : loadSegments f eh as' room (List.range eh.ePhnum.toNat) with
    | none =>
      rw [hseg] at hload
      exact absurd rfl hload
    | some result =>
      rw [hseg] at h hlater
      cases result with
      | some e => exact absurd rfl (h e)
      | none =>
        have hfault := hlater rfl (if_pos hstack) vmFaultRead 0 (.inl rfl)
        exact not_not.mp (mt (vmFault_eq_none (.inl rfl)).mpr hfault)
  · intro hset
    refine ⟨?_, fun entry as1 stackptr hok _ faulttype va ht => ?_⟩
    · rw [hprep.loadElf, ne_eq, Option.map_eq_none_iff]
      exact loadSegments_ne_none hset _
    · rw [hprep.loadElf] at hok
      obtain ⟨result, -, hresult⟩ := Option.map_eq_some_iff.mp hok
      cases result with
      | some e => cases hresult
      | none =>
        obtain ⟨-, rfl⟩ := Prod.mk.inj (Except.ok.inj hresult)
        exact fun hnone => (vmFault_eq_none ht).mp hnone hset

/-! ## Small executables -/

/-- A file that is read in one block. -/
def fileOf (bytes : List UInt8) : File where
  read o n := .ok ((bytes.drop o.toNat).take n)
  blocks o n := ([min n (bytes.length - o.toNat)], none)
  read_le o n l h := by
    cases h
    exact List.length_take_le _ _
  blocks_le o n := by
    exact Nat.min_le_left _ _

/-- The header of an executable with entry point 0x400000, with the program headers behind it. -/
def ehdrBytes (phnum : UInt8) : List UInt8 :=
  identStart ++ [0, 0, 0, 0, 0, 0, 0, 0, 0] ++
    [0, 2, 0, 8, 0, 0, 0, 1, 0, 0x40, 0, 0, 0, 0, 0, 52] ++
    [0, 0, 0, 0, 0, 0, 0, 0, 0, 52, 0, 32, 0, phnum, 0, 0, 0, 0, 0, 0]

/-- A segment of one zero byte. -/
def phdrBytes (vaddr : List UInt8) : List UInt8 :=
  [0, 0, 0, 1, 0, 0, 0, 0] ++ vaddr ++
    [0, 0, 0, 0, 0, 0, 0, 0, 0, 0, 0, 1, 0, 0, 0, 0, 0, 0, 0, 0]

def noSegments : File := fileOf (ehdrBytes 0)

def oneSegment : File := fileOf (ehdrBytes 1 ++ phdrBytes [0, 0x40, 0, 0])

def textAndData : File :=
  fileOf (ehdrBytes 2 ++ phdrBytes [0, 0x40, 0, 0] ++ phdrBytes [0x10, 0, 0, 0])

theorem loadElf_textAndData : loadElf textAndData bootRam (fun _ => true) =
    some (.ok (0x400000, ⟨0x400000, 0x20000, 1, 0x10000000, 0x21000, 1, 0x22000⟩)) := by
  decide +kernel

theorem loadElf_noSegments : loadElf noSegments bootRam (fun _ => true) =
    some (.ok (0x400000, ⟨0, 0x20000, 0, 0, 0x20000, 0, 0x20000⟩)) := by
  decide +kernel

theorem safe_iff_textAndData :
    Safe textAndData bootRam (fun _ => true) ↔ TwoSegments textAndData :=
  safe_iff textAndData bootRam (by decide) (fun _ => true) fun e he => by
    rw [loadElf_textAndData] at he
    cases he

/-- Without program headers an executable is loaded, and the fetch of its first instruction
panics. With one segment the first store of `load_segment` does. -/
theorem first_fetch_panics :
    (∃ as, loadElf noSegments bootRam (fun _ => true) = some (.ok (0x400000, as)) ∧
      asDefineStack as = some userstack ∧ vmFault (some as) vmFaultRead 0x400000 = none) ∧
    loadElf oneSegment bootRam (fun _ => true) = none ∧
    ¬ Safe noSegments bootRam (fun _ => true) ∧ ¬ Safe oneSegment bootRam (fun _ => true) := by
  have hone : loadElf oneSegment bootRam (fun _ => true) = none := by decide +kernel
  refine ⟨⟨_, loadElf_noSegments, rfl, rfl⟩, hone, fun h => ?_, fun h => h.loading hone⟩
  exact h.later _ _ userstack loadElf_noSegments rfl vmFaultRead 0x400000 (.inl rfl) rfl

end Os161.Vm.Spaces

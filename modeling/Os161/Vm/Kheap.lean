import Os161.Lib.Linked

/-! # The subpage allocator

`subpage_kmalloc` and `subpage_kfree` of `kheap.c`. Addresses are numbers below 2^32, and the
masks with `PAGE_FRAME` are written as a division. No result is a panic, a failed assertion or a
loop that does not end. -/
namespace Os161.Vm.Kheap
open Os161.Lib

def pageSize : Nat := 4096
def nsizes : Nat := 8
def sizes (blktype : Nat) : Nat := [16, 32, 64, 128, 256, 512, 1024, 2048].getD blktype 0
def invalidOffset : Nat := 0xffff
def npagerefs : Nat := 256
def inuseWords : Nat := 8

/-- `struct pageref`; a pointer to one is its place in `pagerefs`. -/
structure PageRef where
  nextSamesize : Option Nat
  nextAll : Option Nat
  pageaddrAndBlocktype : Nat
  freelistOffset : Nat
  nfree : Nat

def PageRef.pageaddr (pr : PageRef) : Nat := pr.pageaddrAndBlocktype / pageSize * pageSize
def PageRef.blocktype (pr : PageRef) : Nat := pr.pageaddrAndBlocktype % pageSize
def mkpab (pa blk : Nat) : Nat := pa / pageSize * pageSize + blk % pageSize

/-- The variables of the allocator, and the words of memory by their addresses. -/
structure Heap where
  mem : Nat → Nat
  pagerefs : Nat → PageRef
  pagerefsInuse : Nat → BitVec 32
  sizebases : Nat → Option Nat
  allbase : Option Nat

namespace Heap

def setRef (h : Heap) (i : Nat) (pr : PageRef) : Heap :=
  { h with pagerefs := Function.update h.pagerefs i pr }

/-! ## Pagerefs -/

/-- The bit of a pageref. -/
def inuse (h : Heap) (i : Nat) : Bool := (h.pagerefsInuse (i / 32)).getLsbD (i % 32)

/-- The first clear bit of the words that are not full; an assertion says there is one. -/
def allocpageref (h : Heap) : Option (Option Nat × Heap) :=
  match (List.range inuseWords).find? fun i => h.pagerefsInuse i ≠ 0xffffffff#32 with
  | none => some (none, h)
  | some i =>
    match (List.range 32).find? fun j => h.pagerefsInuse i &&& BitVec.twoPow 32 j = 0#32 with
    | none => none
    | some j => some (some (i * 32 + j), { h with
        pagerefsInuse := Function.update h.pagerefsInuse i
          (h.pagerefsInuse i ||| BitVec.twoPow 32 j) })

def freepageref (h : Heap) (p : Nat) : Option Heap :=
  if p < npagerefs then
    if h.pagerefsInuse (p / 32) &&& BitVec.twoPow 32 (p % 32) ≠ 0#32 then
      some { h with
        pagerefsInuse := Function.update h.pagerefsInuse (p / 32)
          (h.pagerefsInuse (p / 32) &&& ~~~ BitVec.twoPow 32 (p % 32)) }
    else none
  else none

/-! ## Lists of pages -/

def samesize (h : Heap) (blktype : Nat) : Chain Nat :=
  ⟨h.sizebases blktype, fun i => (h.pagerefs i).nextSamesize⟩

def allpages (h : Heap) : Chain Nat := ⟨h.allbase, fun i => (h.pagerefs i).nextAll⟩

def setSamesize (h : Heap) (blktype : Nat) (c : Chain Nat) : Heap :=
  { h with
    sizebases := Function.update h.sizebases blktype c.head
    pagerefs := fun i => { h.pagerefs i with nextSamesize := c.next i } }

def setAllpages (h : Heap) (c : Chain Nat) : Heap :=
  { h with
    allbase := c.head
    pagerefs := fun i => { h.pagerefs i with nextAll := c.next i } }

/-- Both lists have at most `NPAGEREFS` nodes. -/
def removeLists (h : Heap) (pr blktype : Nat) : Option Heap :=
  if blktype < nsizes then
    match (h.samesize blktype).unlink pr npagerefs none with
    | none => none
    | some c =>
      let h := h.setSamesize blktype c
      match h.allpages.unlink pr npagerefs none with
      | none => none
      | some c => some (h.setAllpages c)
  else none

/-! ## Allocating -/

def blocktype (sz : Nat) : Option Nat := (List.range nsizes).find? fun i => sz ≤ sizes i

/-- The loop that links the blocks of a fresh page; `fl != fl->next` is asserted. -/
def thread (fla size : Nat) : Nat → (Nat → Nat) → Option (Nat → Nat)
  | 0, mem => some (Function.update mem fla 0)
  | i + 1, mem =>
    match thread fla size i mem with
    | none => none
    | some mem =>
      if fla + (i + 1) * size ≠ fla + i * size then
        some (Function.update mem (fla + (i + 1) * size) (fla + i * size))
      else none

/-- A fresh page and its pageref. -/
def newPage (h : Heap) (i prpage blktype : Nat) : Option Heap :=
  let nfree := pageSize / sizes blktype
  match thread prpage (sizes blktype) (nfree - 1) h.mem with
  | none => none
  | some mem =>
    let fl := prpage + (nfree - 1) * sizes blktype
    if fl - prpage = (nfree - 1) * sizes blktype then
      some { h.setRef i
          { nextSamesize := h.sizebases blktype
            nextAll := h.allbase
            pageaddrAndBlocktype := mkpab prpage blktype
            freelistOffset := fl - prpage
            nfree := nfree } with
        mem := mem
        sizebases := Function.update h.sizebases blktype (some i)
        allbase := some i }
    else none

/-- From the label `doalloc` on. -/
def doalloc (h : Heap) (i : Nat) : Option (Nat × Heap) :=
  let pr := h.pagerefs i
  if pr.freelistOffset < pageSize then
    let prpage := pr.pageaddr
    let retptr := prpage + pr.freelistOffset
    let fl := h.mem retptr
    let nfree := pr.nfree - 1
    if fl ≠ 0 then
      if 0 < nfree ∧ prpage ≤ fl ∧ fl - prpage < pageSize then
        some (retptr, h.setRef i { pr with freelistOffset := fl - prpage, nfree := nfree })
      else none
    else if nfree = 0 then
      some (retptr, h.setRef i { pr with freelistOffset := invalidOffset, nfree := nfree })
    else none
  else none

/-- `allocKpages` is what `alloc_kpages(1)` answers if it is called. -/
def subpageKmalloc (h : Heap) (sz allocKpages : Nat) : Option (Nat × Heap) :=
  match blocktype sz with
  | none => none
  | some blktype =>
    let test i :=
      if (h.pagerefs i).blocktype = blktype then some (decide (0 < (h.pagerefs i).nfree)) else none
    match search (h.samesize blktype).next test npagerefs (h.sizebases blktype) with
    | none => none
    | some (some i) => h.doalloc i
    | some none =>
      match h.allocpageref with
      | none => none
      | some (none, h) => some (0, h)
      | some (some i, h) =>
        if allocKpages = 0 then (h.freepageref i).map fun h => (0, h)
        else (h.newPage i allocKpages blktype).bind fun h => h.doalloc i

/-! ## Freeing -/

def fillDeadbeef (mem : Nat → Nat) (ptr len : Nat) : Nat → Nat :=
  fun x => if ptr ≤ x ∧ x < ptr + len / 4 * 4 ∧ (x - ptr) % 4 = 0 then 0xdeadbeef else mem x

/-- The page of a pointer. -/
def findPage (h : Heap) (ptraddr : Nat) : Option (Option Nat) :=
  let test i :=
    let pr := h.pagerefs i
    if pr.blocktype < nsizes then
      some (decide (pr.pageaddr ≤ ptraddr ∧ ptraddr < pr.pageaddr + pageSize))
    else none
  search h.allpages.next test npagerefs h.allbase

/-- The block is put on the free list of its page. -/
def push (h : Heap) (i ptraddr : Nat) : Heap :=
  let pr := h.pagerefs i
  let mem := fillDeadbeef h.mem ptraddr (sizes pr.blocktype)
  { h.setRef i { pr with freelistOffset := ptraddr - pr.pageaddr, nfree := pr.nfree + 1 } with
    mem := Function.update mem ptraddr
      (if pr.freelistOffset = invalidOffset then 0 else pr.pageaddr + pr.freelistOffset) }

/-- `free_kpages` does nothing. -/
def retire (h : Heap) (i : Nat) : Option Heap :=
  let pr := h.pagerefs i
  if pr.nfree ≤ pageSize / sizes pr.blocktype then
    if pr.nfree = pageSize / sizes pr.blocktype then
      (h.removeLists i pr.blocktype).bind fun h => h.freepageref i
    else some h
  else none

/-- Whether the pointer is one of a subpage block, and the heap afterwards. -/
def subpageKfree (h : Heap) (ptraddr : Nat) : Option (Bool × Heap) :=
  match h.findPage ptraddr with
  | none => none
  | some none => some (false, h)
  | some (some i) =>
    let pr := h.pagerefs i
    let offset := ptraddr - pr.pageaddr
    if offset < pageSize ∧ offset % sizes pr.blocktype = 0 then
      ((h.push i ptraddr).retire i).map fun h => (true, h)
    else none

end Heap

/-! ## Runs -/

/-- A block in use: its address and the size asked for. -/
structure Block where
  ptr : Nat
  sz : Nat
  deriving DecidableEq

structure State where
  heap : Heap
  live : List Block
  handed : List Nat

inductive Act where
  | kmalloc (sz allocKpages : Nat)
  | kfree (b : Block)
  | write (b : Block) (x v : Nat)

def mipsKseg0 : Nat := 0x80000000
def mipsKseg1 : Nat := 0xa0000000

/-- Only blocks in use are freed, and only their words written to. `alloc_kpages` answers with no
page or with one in the direct-mapped segment that it has not handed out before. -/
def Legit (s : State) : Act → Prop
  | .kmalloc sz page => sz < 2048 ∧ (page = 0 ∨
      page % pageSize = 0 ∧ mipsKseg0 ≤ page ∧ page < mipsKseg1 ∧ page ∉ s.handed)
  | .kfree b => b ∈ s.live
  | .write b x _ => b ∈ s.live ∧ b.ptr ≤ x ∧ x < b.ptr + b.sz ∧ x % 4 = 0

def step (s : State) : Act → Option State
  | .kmalloc sz page =>
    match s.heap.subpageKmalloc sz page with
    | none => none
    | some (p, h) => some
        { heap := h
          live := if p = 0 then s.live else ⟨p, sz⟩ :: s.live
          handed := page :: s.handed }
  | .kfree b =>
    match s.heap.subpageKfree b.ptr with
    | some (true, h) => some { s with heap := h, live := s.live.erase b }
    | _ => none
  | .write _ x v => some { s with heap := { s.heap with mem := Function.update s.heap.mem x v } }

/-- All variables of the allocator are 0. -/
def boot (mem : Nat → Nat) : State where
  heap :=
    { mem
      pagerefs := fun _ => ⟨none, none, 0, 0, 0⟩
      pagerefsInuse := fun _ => 0
      sizebases := fun _ => none
      allbase := none }
  live := []
  handed := []

end Os161.Vm.Kheap

import Mathlib.Tactic.ByContra
import Os161.Vm.KheapLists

/-! # Pages of the subpage allocator

Each page in use has a free list through its blocks and is on two lists of pagerefs. The invariant
names these lists. Blocks of different pages or places do not overlap, so what is written to one
leaves the free lists as they are. -/
namespace Os161.Vm.Kheap
open Os161.Lib

variable {h h' : Heap} {live : List Block} {handed : List Nat}

/-! ## The invariant -/

def pageOf (h : Heap) (i : Nat) : Nat := (h.pagerefs i).pageaddr
def typeOf (h : Heap) (i : Nat) : Nat := (h.pagerefs i).blocktype

/-- What `checksubpage` goes along. -/
def freeHead (pr : PageRef) : Option Nat :=
  if pr.freelistOffset = invalidOffset then none else some (pr.pageaddr + pr.freelistOffset)

/-- The assertions of `checksubpage`, for the free list of the page. -/
structure Checked (h : Heap) (i : Nat) (free : List Nat) : Prop where
  type : typeOf h i < nsizes
  low : mipsKseg0 ≤ pageOf h i
  high : pageOf h i < mipsKseg1
  linked : Linked (nextFree h.mem) (freeHead (h.pagerefs i)) free
  acyclic : free.Nodup
  count : free.length = (h.pagerefs i).nfree
  blocks : ∀ a ∈ free, IsBlock (pageOf h i) (sizes (typeOf h i)) a

/-- Both lists of pages have the pagerefs that are in use. -/
structure Listed (h : Heap) (all : List Nat) (same : Nat → List Nat) : Prop where
  allLinked : Linked h.allpages.next h.allbase all
  allNodup : all.Nodup
  bits : ∀ i, h.inuse i = true ↔ i ∈ all
  bound : ∀ i ∈ all, i < npagerefs
  sameLinked : ∀ b, b < nsizes → Linked (h.samesize b).next (h.sizebases b) (same b)
  sameNodup : ∀ b, b < nsizes → (same b).Nodup
  sameMem : ∀ b, b < nsizes → ∀ i, i ∈ same b ↔ i ∈ all ∧ typeOf h i = b

structure Inv (h : Heap) (live : List Block) (handed : List Nat) (all : List Nat)
    (same free : Nat → List Nat) : Prop where
  listed : Listed h all same
  pages : ∀ i ∈ all, Checked h i (free i)
  handed : ∀ i ∈ all, pageOf h i ∈ handed
  distinct : ∀ i ∈ all, ∀ j ∈ all, pageOf h i = pageOf h j → i = j
  apart : (live.map Block.ptr).Nodup
  live : ∀ b ∈ live, ∃ i ∈ all, IsBlock (pageOf h i) (sizes (typeOf h i)) b.ptr ∧
    b.ptr ∉ free i ∧ Heap.blocktype b.sz = some (typeOf h i)

/-- No page has all its blocks free. -/
def Used (h : Heap) (all : List Nat) : Prop :=
  ∀ i ∈ all, (h.pagerefs i).nfree < pageSize / sizes (typeOf h i)

/-! ## Pages -/

variable {all : List Nat} {same free free' : Nat → List Nat} {i j : Nat}

theorem pageOf_aligned (h : Heap) (i : Nat) : pageOf h i % pageSize = 0 := Nat.mul_mod_left _ _

theorem pageOf_eq {a : Nat} (hlow : pageOf h i ≤ a) (hhigh : a < pageOf h i + pageSize) :
    pageOf h i = a / pageSize * pageSize := by
  have ha := pageOf_aligned h i
  simp only [pageSize] at ha hhigh ⊢
  omega

theorem Listed.length_le (hl : Listed h all same) : all.length ≤ npagerefs := by
  have hsub : all ⊆ List.range npagerefs := fun i hi => List.mem_range.mpr (hl.bound i hi)
  have hle := (hl.allNodup.subperm hsub).length_le
  rwa [List.length_range] at hle

theorem Listed.same_length_le (hl : Listed h all same) {b : Nat} (hb : b < nsizes) :
    (same b).length ≤ npagerefs := by
  have hsub : same b ⊆ all := fun i hi => ((hl.sameMem b hb i).mp hi).1
  exact Nat.le_trans ((hl.sameNodup b hb).subperm hsub).length_le hl.length_le

theorem Inv.page_unique (hi : Inv h live handed all same free) {a : Nat} (hmi : i ∈ all)
    (hmj : j ∈ all) (hlow : pageOf h i ≤ a) (hhigh : a < pageOf h i + pageSize)
    (hlow' : pageOf h j ≤ a) (hhigh' : a < pageOf h j + pageSize) : i = j :=
  hi.distinct i hmi j hmj ((pageOf_eq hlow hhigh).trans (pageOf_eq hlow' hhigh').symm)

/-- The words of a block are not those at the beginning of another. -/
theorem Inv.outside (hi : Inv h live handed all same free) {a x : Nat} (hmi : i ∈ all)
    (hmj : j ∈ all) (hp : IsBlock (pageOf h i) (sizes (typeOf h i)) a) (hx : a ≤ x)
    (hx' : x < a + sizes (typeOf h i)) {c : Nat} (hc : IsBlock (pageOf h j) (sizes (typeOf h j)) c)
    (hne : c ≠ a) : c ≠ x := by
  have hend := hp.end_le (sizes_class (hi.pages i hmi).type)
  have hlow := hp.low
  intro he
  subst he
  have hij := hi.page_unique hmi hmj (by omega) (by omega) hc.low hc.high
  subst hij
  rcases hp.apart hc (sizes_class (hi.pages i hmi).type) (Ne.symm hne) with hle | hle
  · omega
  · have := (sizes_class (hi.pages i hmi).type).pos
    omega

/-- What a change of free lists keeps. -/
theorem Inv.change (hi : Inv h live handed all same free) {live' : List Block}
    (hlists : h'.allbase = h.allbase ∧ h'.sizebases = h.sizebases ∧
      h'.pagerefsInuse = h.pagerefsInuse)
    (hrefs : ∀ j, (h'.pagerefs j).nextAll = (h.pagerefs j).nextAll ∧
      (h'.pagerefs j).nextSamesize = (h.pagerefs j).nextSamesize ∧
      (h'.pagerefs j).pageaddrAndBlocktype = (h.pagerefs j).pageaddrAndBlocktype)
    (hpages : ∀ i ∈ all, Checked h' i (free' i))
    (hlive : ∀ b ∈ live', ∃ i ∈ all, IsBlock (pageOf h i) (sizes (typeOf h i)) b.ptr ∧
      b.ptr ∉ free' i ∧ Heap.blocktype b.sz = some (typeOf h i))
    (hapart : (live'.map Block.ptr).Nodup) : Inv h' live' handed all same free' := by
  have hpage : ∀ j, pageOf h' j = pageOf h j := fun j => by
    simp only [pageOf, PageRef.pageaddr, (hrefs j).2.2]
  have htype : ∀ j, typeOf h' j = typeOf h j := fun j => by
    simp only [typeOf, PageRef.blocktype, (hrefs j).2.2]
  refine ⟨⟨?_, hi.listed.allNodup, fun i => ?_, hi.listed.bound, fun b hb => ?_,
    hi.listed.sameNodup, fun b hb i => ?_⟩, hpages, fun i hm => ?_, fun i hmi j hmj => ?_,
    hapart, fun b hb => ?_⟩
  · rw [hlists.1]
    exact hi.listed.allLinked.congr fun j _ => (hrefs j).1
  · rw [← hi.listed.bits i, Heap.inuse, Heap.inuse, hlists.2.2]
  · rw [hlists.2.1]
    exact (hi.listed.sameLinked b hb).congr fun j _ => (hrefs j).2.1
  · rw [htype]
    exact hi.listed.sameMem b hb i
  · rw [hpage]
    exact hi.handed i hm
  · rw [hpage, hpage]
    exact hi.distinct i hmi j hmj
  · obtain ⟨i, hm, hp, hrest⟩ := hlive b hb
    refine ⟨i, hm, ?_⟩
    rw [hpage, htype]
    exact ⟨hp, hrest⟩

/-- What a page keeps if its pageref and its free blocks stay as they are. -/
theorem Checked.congr {l : List Nat} (hc : Checked h i l) (hr : h'.pagerefs i = h.pagerefs i)
    (hmem : ∀ a ∈ l, h'.mem a = h.mem a) : Checked h' i l := by
  have hpage : pageOf h' i = pageOf h i := by rw [pageOf, pageOf, hr]
  have htype : typeOf h' i = typeOf h i := by rw [typeOf, typeOf, hr]
  refine ⟨htype ▸ hc.type, by rw [hpage]; exact hc.low, by rw [hpage]; exact hc.high, ?_,
    hc.acyclic, ?_, ?_⟩
  · rw [hr]
    exact hc.linked.congr fun a ha => by rw [nextFree, nextFree, hmem a ha]
  · rw [hr]
    exact hc.count
  · rw [hpage, htype]
    exact hc.blocks

/-! ## Allocating from a page -/

theorem setRef_self (h : Heap) (i : Nat) (pr : PageRef) : (h.setRef i pr).pagerefs i = pr :=
  Function.update_self ..

theorem setRef_ne {pr : PageRef} (hj : j ≠ i) : (h.setRef i pr).pagerefs j = h.pagerefs j :=
  Function.update_of_ne hj ..

/-- A pageref with another free list. -/
def relisted (pr : PageRef) (offset nfree : Nat) : PageRef :=
  { pr with freelistOffset := offset, nfree := nfree }

theorem relisted_refs (h : Heap) (i offset nfree : Nat) (j : Nat) :
    ((h.setRef i (relisted (h.pagerefs i) offset nfree)).pagerefs j).nextAll =
        (h.pagerefs j).nextAll ∧
      ((h.setRef i (relisted (h.pagerefs i) offset nfree)).pagerefs j).nextSamesize =
        (h.pagerefs j).nextSamesize ∧
      ((h.setRef i (relisted (h.pagerefs i) offset nfree)).pagerefs j).pageaddrAndBlocktype =
        (h.pagerefs j).pageaddrAndBlocktype := by
  by_cases hj : j = i
  · subst hj
    rw [setRef_self]
    exact ⟨rfl, rfl, rfl⟩
  · rw [setRef_ne hj]
    exact ⟨rfl, rfl, rfl⟩

theorem freeHead_some {pr : PageRef} {a : Nat} (h : freeHead pr = some a) :
    pr.freelistOffset ≠ invalidOffset ∧ a = pr.pageaddr + pr.freelistOffset := by
  unfold freeHead at h
  split at h
  · cases h
  · exact ⟨‹_›, (Option.some.inj h).symm⟩

theorem freeHead_valid {pr : PageRef} (h : pr.freelistOffset ≠ invalidOffset) :
    freeHead pr = some (pr.pageaddr + pr.freelistOffset) := if_neg h

theorem doalloc_spec {a : Nat} {t : List Nat} (hc : Checked h i (a :: t)) :
    ∃ offset, h.doalloc i = some (a, h.setRef i
        (relisted (h.pagerefs i) offset ((h.pagerefs i).nfree - 1))) ∧
      Checked (h.setRef i (relisted (h.pagerefs i) offset ((h.pagerefs i).nfree - 1))) i t := by
  obtain ⟨hhead, hrest⟩ := hc.linked
  obtain ⟨-, ha⟩ := freeHead_some hhead
  have hblock := hc.blocks a List.mem_cons_self
  have hlow := hc.low
  have hoff : (h.pagerefs i).freelistOffset < pageSize := by
    have hhigh := hblock.high
    rw [ha, pageOf] at hhigh
    omega
  have hcount : t.length = (h.pagerefs i).nfree - 1 := by
    rw [← hc.count, List.length_cons, Nat.add_sub_cancel]
  have hkeep : ∀ offset, freeHead (relisted (h.pagerefs i) offset ((h.pagerefs i).nfree - 1)) =
      nextFree h.mem a → Checked (h.setRef i
        (relisted (h.pagerefs i) offset ((h.pagerefs i).nfree - 1))) i t := by
    intro offset hf
    have hpage : pageOf (h.setRef i
        (relisted (h.pagerefs i) offset ((h.pagerefs i).nfree - 1))) i = pageOf h i := by
      rw [pageOf, setRef_self]
      rfl
    have htype : typeOf (h.setRef i
        (relisted (h.pagerefs i) offset ((h.pagerefs i).nfree - 1))) i = typeOf h i := by
      rw [typeOf, setRef_self]
      rfl
    refine ⟨htype ▸ hc.type, by rw [hpage]; exact hlow, by rw [hpage]; exact hc.high, ?_,
      (List.nodup_cons.mp hc.acyclic).2, ?_, ?_⟩
    · rw [setRef_self, hf]
      exact hrest
    · rw [setRef_self]
      exact hcount
    · rw [hpage, htype]
      exact fun c hm => hc.blocks c (List.mem_cons_of_mem _ hm)
  cases t with
  | nil =>
    have hzero : h.mem a = 0 := by
      by_contra hne
      have hnext : nextFree h.mem a = none := hrest
      rw [nextFree, if_neg hne] at hnext
      cases hnext
    have hn : (h.pagerefs i).nfree - 1 = 0 := hcount.symm
    refine ⟨invalidOffset, ?_, hkeep _ ?_⟩
    · simp only [Heap.doalloc, if_pos hoff, ← ha, hzero, ne_eq, not_true_eq_false, if_false, hn,
        if_true, relisted]
    · rw [nextFree, if_pos hzero]
      rfl
  | cons c t =>
    have hnext : nextFree h.mem a = some c := hrest.1
    have hne : h.mem a ≠ 0 := by
      intro hz
      rw [nextFree, if_pos hz] at hnext
      cases hnext
    have hmem : h.mem a = c := by
      rw [nextFree, if_neg hne] at hnext
      exact Option.some.inj hnext
    have hbc := hc.blocks c (List.mem_cons_of_mem _ List.mem_cons_self)
    have hclow : (h.pagerefs i).pageaddr ≤ c := hbc.low
    have hchigh : c < (h.pagerefs i).pageaddr + pageSize := hbc.high
    have hin : 0 < (h.pagerefs i).nfree - 1 ∧ (h.pagerefs i).pageaddr ≤ c ∧
        c - (h.pagerefs i).pageaddr < pageSize := by
      refine ⟨?_, hclow, by omega⟩
      rw [← hcount]
      exact Nat.succ_pos _
    refine ⟨c - (h.pagerefs i).pageaddr, ?_, hkeep _ ?_⟩
    · rw [hmem] at hne
      simp only [Heap.doalloc, if_pos hoff, ← ha, hmem, ne_eq, hne, not_false_eq_true, if_true,
        if_pos hin, relisted]
    · have hvalid : c - (h.pagerefs i).pageaddr ≠ invalidOffset := by
        simp only [pageSize, invalidOffset] at hin ⊢
        omega
      rw [hnext, freeHead_valid hvalid]
      show some ((h.pagerefs i).pageaddr + (c - (h.pagerefs i).pageaddr)) = some c
      rw [Nat.add_sub_cancel' hclow]

theorem Inv.not_live (hi : Inv h live handed all same free) {a : Nat} (hm : i ∈ all)
    (ha : a ∈ free i) : a ∉ live.map Block.ptr := by
  intro hl
  obtain ⟨b, hb, rfl⟩ := List.mem_map.mp hl
  obtain ⟨j, hj, hp, hfree, -⟩ := hi.live b hb
  have hblock := (hi.pages i hm).blocks _ ha
  have hij := hi.page_unique hm hj hblock.low hblock.high hp.low hp.high
  exact hfree (hij ▸ ha)

/-- `doalloc` takes the first free block. -/
theorem Inv.doalloc (hi : Inv h live handed all same free) (hm : i ∈ all)
    (hn : 0 < (h.pagerefs i).nfree) {sz : Nat} (hsz : Heap.blocktype sz = some (typeOf h i)) :
    ∃ a h', h.doalloc i = some (a, h') ∧ a ≠ 0 ∧
      Inv h' (⟨a, sz⟩ :: live) handed all same (Function.update free i (free i).tail) ∧
      (h'.pagerefs i).nfree = (h.pagerefs i).nfree - 1 ∧
      (∀ j, j ≠ i → h'.pagerefs j = h.pagerefs j) ∧ ∀ j, typeOf h' j = typeOf h j := by
  have hc := hi.pages i hm
  cases hf : free i with
  | nil =>
    have hzero := hc.count
    rw [hf] at hzero
    exact absurd hzero (Nat.ne_of_lt hn)
  | cons a t =>
    rw [hf] at hc
    have hmem : a ∈ free i := by
      rw [hf]
      exact List.mem_cons_self
    have hblock := hc.blocks a List.mem_cons_self
    obtain ⟨offset, heq, hct⟩ := doalloc_spec hc
    have hfree : ∀ j c, c ∈ Function.update free i t j → c ∈ free j := by
      intro j c hcm
      rw [Function.update_apply] at hcm
      split at hcm
      · rename_i hj
        rw [hj, hf]
        exact List.mem_cons_of_mem _ hcm
      · exact hcm
    refine ⟨a, _, heq, ?_, hi.change ⟨rfl, rfl, rfl⟩ (relisted_refs h i offset _) ?_ ?_ ?_, ?_, ?_,
      ?_⟩
    · have hlow := hc.low
      have hle := hblock.low
      simp only [mipsKseg0] at hlow
      omega
    · intro j hj
      by_cases hji : j = i
      · subst hji
        rw [Function.update_self]
        exact hct
      · rw [Function.update_of_ne hji]
        exact (hi.pages j hj).congr (setRef_ne hji) fun _ _ => rfl
    · intro b hb
      rcases List.mem_cons.mp hb with rfl | hb
      · refine ⟨i, hm, hblock, ?_, hsz⟩
        rw [Function.update_self]
        exact (List.nodup_cons.mp hc.acyclic).1
      · obtain ⟨j, hj, hp, hout, hty⟩ := hi.live b hb
        exact ⟨j, hj, hp, fun hin => hout (hfree j _ hin), hty⟩
    · exact List.nodup_cons.mpr ⟨hi.not_live hm hmem, hi.apart⟩
    · rw [setRef_self]
      rfl
    · intro j hj
      exact setRef_ne hj
    · intro j
      simp only [typeOf, PageRef.blocktype, (relisted_refs h i offset _ j).2.2]

end Os161.Vm.Kheap

import Os161.Vm.KheapPages

/-! # Allocating a block

A fresh page has all its blocks on its free list. `subpage_kmalloc` takes the first free block of
a page that has one. -/
namespace Os161.Vm.Kheap
open Os161.Lib

variable {h h' : Heap} {live : List Block} {handed all : List Nat} {same free : Nat → List Nat}
  {i j : Nat}

/-! ## A fresh page -/

theorem mkpab_pageaddr {page : Nat} (hp : page % pageSize = 0) (b : Nat) :
    mkpab page b / pageSize * pageSize = page := by
  simp only [mkpab, pageSize] at hp ⊢
  omega

theorem mkpab_blocktype {page b : Nat} (hb : b < nsizes) : mkpab page b % pageSize = b := by
  simp only [mkpab, pageSize, nsizes] at hb ⊢
  omega

theorem pages_pos {size : Nat} (hs : SizeClass size) : 0 < pageSize / size := by
  refine Nat.pos_of_ne_zero fun hz => ?_
  have hdvd : pageSize / size * size = 4096 := hs.dvd
  rw [hz] at hdvd
  omega

theorem down_isBlock {page size a : Nat} (hs : SizeClass size)
    (ha : a ∈ down page size (pageSize / size - 1)) : IsBlock page size a := by
  obtain ⟨k, hk, rfl⟩ := mem_down.mp ha
  have hpos := pages_pos hs
  exact (isBlock_iff hs).mpr ⟨k, by omega, rfl⟩

/-- The pageref of a fresh page. -/
def freshRef (h : Heap) (page b : Nat) : PageRef where
  nextSamesize := h.sizebases b
  nextAll := h.allbase
  pageaddrAndBlocktype := mkpab page b
  freelistOffset := (pageSize / sizes b - 1) * sizes b
  nfree := pageSize / sizes b

/-- The heap with a fresh page, field by field. -/
structure Fresh (h h' : Heap) (i page b : Nat) : Prop where
  refs : h'.pagerefs = Function.update h.pagerefs i (freshRef h page b)
  allbase : h'.allbase = some i
  sizebases : h'.sizebases = Function.update h.sizebases b (some i)
  bits : ∀ k, h'.inuse k = (decide (k = i) || h.inuse k)
  linked : Linked (nextFree h'.mem) (some (page + (pageSize / sizes b - 1) * sizes b))
    (down page (sizes b) (pageSize / sizes b - 1))
  mem : ∀ x, x ∉ down page (sizes b) (pageSize / sizes b - 1) → h'.mem x = h.mem x

theorem newPage_fresh {words : Nat → BitVec 32} {page b : Nat} (hzero : 0 < page)
    (hb : b < nsizes) (hbits : ∀ k, ({ h with pagerefsInuse := words } : Heap).inuse k =
      (decide (k = i) || h.inuse k)) :
    ∃ h', ({ h with pagerefsInuse := words } : Heap).newPage i page b = some h' ∧
      Fresh h h' i page b := by
  obtain ⟨mem, hmem, hlinked, hsame⟩ :=
    thread_spec (sizes_class hb).pos hzero (pageSize / sizes b - 1) h.mem
  have hoff : page + (pageSize / sizes b - 1) * sizes b - page =
      (pageSize / sizes b - 1) * sizes b := Nat.add_sub_cancel_left _ _
  refine ⟨{ h.setRef i (freshRef h page b) with
      pagerefsInuse := words
      mem := mem
      sizebases := Function.update h.sizebases b (some i)
      allbase := some i }, ?_, ⟨rfl, rfl, rfl, hbits, hlinked, hsame⟩⟩
  simp only [Heap.newPage, hmem, hoff, if_true]
  rfl

section FreshPage

variable {page b : Nat}

theorem Fresh.ref (hf : Fresh h h' i page b) : h'.pagerefs i = freshRef h page b := by
  rw [hf.refs, Function.update_self]

theorem Fresh.ref_ne (hf : Fresh h h' i page b) (hj : j ≠ i) : h'.pagerefs j = h.pagerefs j := by
  rw [hf.refs, Function.update_of_ne hj]

theorem Fresh.pageOf (hf : Fresh h h' i page b) (hp : page % pageSize = 0) :
    pageOf h' i = page := by
  rw [Kheap.pageOf, hf.ref]
  exact mkpab_pageaddr hp b

theorem Fresh.typeOf (hf : Fresh h h' i page b) (hb : b < nsizes) : typeOf h' i = b := by
  rw [Kheap.typeOf, hf.ref]
  exact mkpab_blocktype hb

theorem Fresh.pageOf_ne (hf : Fresh h h' i page b) (hj : j ≠ i) :
    Kheap.pageOf h' j = Kheap.pageOf h j := by
  rw [Kheap.pageOf, Kheap.pageOf, hf.ref_ne hj]

theorem Fresh.typeOf_ne (hf : Fresh h h' i page b) (hj : j ≠ i) :
    Kheap.typeOf h' j = Kheap.typeOf h j := by
  rw [Kheap.typeOf, Kheap.typeOf, hf.ref_ne hj]

theorem Fresh.checked (hf : Fresh h h' i page b) (hp : page % pageSize = 0)
    (hlow : mipsKseg0 ≤ page) (hhigh : page < mipsKseg1) (hb : b < nsizes) :
    Checked h' i (down page (sizes b) (pageSize / sizes b - 1)) where
  type := by
    rw [hf.typeOf hb]
    exact hb
  low := by
    rw [hf.pageOf hp]
    exact hlow
  high := by
    rw [hf.pageOf hp]
    exact hhigh
  linked := by
    have hvalid : (freshRef h page b).freelistOffset ≠ invalidOffset := by
      have hlast : IsBlock page (sizes b) (page + (pageSize / sizes b - 1) * sizes b) :=
        down_isBlock (sizes_class hb) (mem_down.mpr ⟨_, Nat.le_refl _, rfl⟩)
      have hend := hlast.high
      simp only [freshRef, invalidOffset]
      simp only [pageSize] at hend ⊢
      omega
    rw [hf.ref, freeHead_valid hvalid]
    show Linked _ (some (mkpab page b / pageSize * pageSize + _)) _
    rw [mkpab_pageaddr hp]
    exact hf.linked
  acyclic := down_nodup (sizes_class hb).pos _
  count := by
    rw [down_length, hf.ref]
    exact Nat.sub_add_cancel (pages_pos (sizes_class hb))
  blocks := by
    rw [hf.pageOf hp, hf.typeOf hb]
    exact fun a => down_isBlock (sizes_class hb)

theorem Fresh.listed (hf : Fresh h h' i page b) (hl : Listed h all same) (hm : i ∉ all)
    (hlt : i < npagerefs) (hb : b < nsizes) :
    Listed h' (i :: all) (Function.update same b (i :: same b)) where
  allLinked := by
    rw [hf.allbase]
    refine ⟨rfl, ?_⟩
    show Linked (fun j => (h'.pagerefs j).nextAll) (h'.pagerefs i).nextAll all
    rw [hf.ref]
    exact hl.allLinked.congr fun j hj => by
      have hne : j ≠ i := fun he => hm (he ▸ hj)
      simp only [Heap.allpages, hf.ref_ne hne]
  allNodup := List.nodup_cons.mpr ⟨hm, hl.allNodup⟩
  bits k := by
    rw [hf.bits, Bool.or_eq_true, decide_eq_true_eq, hl.bits, List.mem_cons]
  bound j hj := by
    rcases List.mem_cons.mp hj with rfl | hj
    · exact hlt
    · exact hl.bound j hj
  sameLinked c hc := by
    have hcongr : Linked (fun j => (h'.pagerefs j).nextSamesize) (h.sizebases c) (same c) :=
      (hl.sameLinked c hc).congr fun j hj => by
        have hne : j ≠ i := fun he => hm (he ▸ ((hl.sameMem c hc j).mp hj).1)
        simp only [Heap.samesize, hf.ref_ne hne]
    by_cases hcb : c = b
    · subst hcb
      rw [hf.sizebases, Function.update_self, Function.update_self]
      refine ⟨rfl, ?_⟩
      show Linked (fun j => (h'.pagerefs j).nextSamesize) (h'.pagerefs i).nextSamesize _
      rw [hf.ref]
      exact hcongr
    · rw [hf.sizebases, Function.update_of_ne hcb, Function.update_of_ne hcb]
      exact hcongr
  sameNodup c hc := by
    by_cases hcb : c = b
    · subst hcb
      rw [Function.update_self]
      exact List.nodup_cons.mpr ⟨fun hin => hm ((hl.sameMem c hc i).mp hin).1, hl.sameNodup c hc⟩
    · rw [Function.update_of_ne hcb]
      exact hl.sameNodup c hc
  sameMem c hc j := by
    by_cases hji : j = i
    · subst hji
      rw [hf.typeOf hb]
      by_cases hcb : c = b
      · subst hcb
        rw [Function.update_self]
        exact iff_of_true List.mem_cons_self ⟨List.mem_cons_self, rfl⟩
      · rw [Function.update_of_ne hcb]
        exact iff_of_false (fun hin => hm ((hl.sameMem c hc j).mp hin).1) fun h => hcb h.2.symm
    · rw [hf.typeOf_ne hji, List.mem_cons, or_iff_right hji, ← hl.sameMem c hc j]
      by_cases hcb : c = b
      · subst hcb
        rw [Function.update_self, List.mem_cons, or_iff_right hji]
      · rw [Function.update_of_ne hcb]

/-- A fresh page has all its blocks free and is the first one on its lists. -/
theorem Inv.fresh (hi : Inv h live handed all same free) (hf : Fresh h h' i page b)
    (hm : i ∉ all) (hlt : i < npagerefs) (hp : page % pageSize = 0) (hlow : mipsKseg0 ≤ page)
    (hhigh : page < mipsKseg1) (hfresh : page ∉ handed) (hb : b < nsizes) :
    Inv h' live (page :: handed) (i :: all) (Function.update same b (i :: same b))
      (Function.update free i (down page (sizes b) (pageSize / sizes b - 1))) := by
  have hne : ∀ j ∈ all, j ≠ i := fun j hj he => hm (he ▸ hj)
  have hpage : ∀ j ∈ all, pageOf h j ≠ page := fun j hj he => hfresh (he ▸ hi.handed j hj)
  refine ⟨hf.listed hi.listed hm hlt hb, fun j hj => ?_, fun j hj => ?_, ?_, hi.apart,
    fun c hc => ?_⟩
  · rcases List.mem_cons.mp hj with rfl | hj
    · rw [Function.update_self]
      exact hf.checked hp hlow hhigh hb
    · rw [Function.update_of_ne (hne j hj)]
      refine (hi.pages j hj).congr (hf.ref_ne (hne j hj)) fun a ha => hf.mem a fun hd => ?_
      have hblock := (hi.pages j hj).blocks a ha
      have hdown := down_isBlock (sizes_class hb) hd
      have hdlow := hdown.low
      have hdhigh := hdown.high
      refine hpage j hj ((pageOf_eq hblock.low hblock.high).trans ?_)
      simp only [pageSize] at hp hdhigh ⊢
      omega
  · rcases List.mem_cons.mp hj with rfl | hj
    · rw [hf.pageOf hp]
      exact List.mem_cons_self
    · rw [hf.pageOf_ne (hne j hj)]
      exact List.mem_cons_of_mem _ (hi.handed j hj)
  · intro j hj k hk hjk
    rcases List.mem_cons.mp hj with hji | hj'
    · rcases List.mem_cons.mp hk with hki | hk'
      · exact hji.trans hki.symm
      · rw [hji, hf.pageOf hp, hf.pageOf_ne (hne k hk')] at hjk
        exact absurd hjk.symm (hpage k hk')
    · rcases List.mem_cons.mp hk with hki | hk'
      · rw [hki, hf.pageOf hp, hf.pageOf_ne (hne j hj')] at hjk
        exact absurd hjk (hpage j hj')
      · rw [hf.pageOf_ne (hne j hj'), hf.pageOf_ne (hne k hk')] at hjk
        exact hi.distinct j hj' k hk' hjk
  · obtain ⟨j, hj, hblock, hout, hty⟩ := hi.live c hc
    refine ⟨j, List.mem_cons_of_mem _ hj, ?_⟩
    rw [hf.pageOf_ne (hne j hj), hf.typeOf_ne (hne j hj), Function.update_of_ne (hne j hj)]
    exact ⟨hblock, hout, hty⟩

end FreshPage

/-! ## `subpage_kmalloc` -/

theorem blocktype_spec {sz : Nat} (hsz : sz < 2048) :
    ∃ b, Heap.blocktype sz = some b ∧ b < nsizes ∧ sz ≤ sizes b := by
  cases hb : Heap.blocktype sz with
  | none =>
    have hnone := List.find?_eq_none.mp hb 7 (by decide)
    have hle : sz ≤ sizes 7 := Nat.le_of_lt hsz
    simp [hle] at hnone
  | some b =>
    refine ⟨b, rfl, List.mem_range.mp (List.mem_of_find?_eq_some hb), ?_⟩
    simpa using List.find?_some hb

theorem Inv.hand (hi : Inv h live handed all same free) (page : Nat) :
    Inv h live (page :: handed) all same free :=
  ⟨hi.listed, hi.pages, fun i hm => List.mem_cons_of_mem _ (hi.handed i hm), hi.distinct, hi.apart,
    hi.live⟩

theorem Inv.words (hi : Inv h live handed all same free) {words : Nat → BitVec 32}
    (hbits : ∀ k, ({ h with pagerefsInuse := words } : Heap).inuse k = h.inuse k) :
    Inv { h with pagerefsInuse := words } live handed all same free :=
  ⟨⟨hi.listed.allLinked, hi.listed.allNodup, fun i => by rw [hbits]; exact hi.listed.bits i,
    hi.listed.bound, hi.listed.sameLinked, hi.listed.sameNodup, hi.listed.sameMem⟩,
    fun i hm => (hi.pages i hm).congr rfl fun _ _ => rfl, hi.handed, hi.distinct, hi.apart,
    hi.live⟩

/-- Allocating succeeds, or there is no memory and nothing has changed. -/
def Allocated (h' : Heap) (live : List Block) (handed : List Nat) (p sz page : Nat) : Prop :=
  ∃ all same free, Inv h' (if p = 0 then live else ⟨p, sz⟩ :: live) (page :: handed) all same free ∧
    Used h' all

theorem Inv.doalloc_allocated {page sz : Nat} (hi : Inv h live (page :: handed) all same free)
    (hm : i ∈ all) (hn : 0 < (h.pagerefs i).nfree)
    (hle : (h.pagerefs i).nfree ≤ pageSize / sizes (typeOf h i))
    (hu : ∀ j ∈ all, j ≠ i → (h.pagerefs j).nfree < pageSize / sizes (typeOf h j))
    (hsz : Heap.blocktype sz = some (typeOf h i)) :
    ∃ p h', h.doalloc i = some (p, h') ∧ Allocated h' live handed p sz page := by
  obtain ⟨a, h', heq, hne, hi', hnfree, href, htype⟩ := hi.doalloc hm hn hsz
  refine ⟨a, h', heq, all, same, Function.update free i (free i).tail, ?_, fun j hj => ?_⟩
  · rw [if_neg hne]
    exact hi'
  · rw [htype]
    by_cases hji : j = i
    · subst hji
      rw [hnfree]
      omega
    · rw [href j hji]
      exact hu j hj hji

theorem Inv.subpageKmalloc {sz page : Nat} (hi : Inv h live handed all same free)
    (hu : Used h all) (hsz : sz < 2048) (hpage : page = 0 ∨
      page % pageSize = 0 ∧ mipsKseg0 ≤ page ∧ page < mipsKseg1 ∧ page ∉ handed) :
    ∃ p h', h.subpageKmalloc sz page = some (p, h') ∧ Allocated h' live handed p sz page := by
  obtain ⟨b, hb, hb8, -⟩ := blocktype_spec hsz
  have hsearch : search (h.samesize b).next (fun i =>
      if (h.pagerefs i).blocktype = b then some (decide (0 < (h.pagerefs i).nfree)) else none)
      npagerefs (h.sizebases b) =
        some ((same b).find? fun i => decide (0 < (h.pagerefs i).nfree)) :=
    search_spec (hi.listed.sameLinked b hb8) (hi.listed.same_length_le hb8)
      fun i hm => if_pos ((hi.listed.sameMem b hb8 i).mp hm).2
  simp only [Heap.subpageKmalloc, hb, hsearch]
  cases hfind : (same b).find? fun i => decide (0 < (h.pagerefs i).nfree) with
  | some i =>
    obtain ⟨hm, htype⟩ := (hi.listed.sameMem b hb8 i).mp (List.mem_of_find?_eq_some hfind)
    have hn : 0 < (h.pagerefs i).nfree := by simpa using List.find?_some hfind
    exact (hi.hand page).doalloc_allocated hm hn (Nat.le_of_lt (hu i hm)) (fun j hj _ => hu j hj)
      (htype ▸ hb)
  | none =>
    rcases allocpageref_spec h with hfull | ⟨i, words, halloc, hlt, hclear, hbits⟩
    · rw [hfull]
      exact ⟨0, h, rfl, all, same, free, hi.hand page, hu⟩
    · rw [halloc]
      have hm : i ∉ all := by
        rw [← hi.listed.bits i, hclear]
        exact Bool.false_ne_true
      by_cases hzero : page = 0
      · have hin : ({ h with pagerefsInuse := words } : Heap).inuse i = true := by
          rw [hbits, decide_eq_true rfl, Bool.true_or]
        obtain ⟨words', hfree, hbits'⟩ := freepageref_spec hlt hin
        refine ⟨0, { h with pagerefsInuse := words' }, ?_, all, same, free,
          (hi.hand page).words fun k => ?_, hu⟩
        · show (if page = 0 then _ else _) = _
          rw [if_pos hzero, hfree]
          rfl
        · refine (hbits' k).trans ?_
          rw [hbits]
          by_cases hk : k = i
          · subst hk
            rw [hclear]
            simp
          · simp [hk]
      · obtain ⟨hal, hlow, hhigh, hfresh⟩ := hpage.resolve_left hzero
        obtain ⟨h1, hnew, hf⟩ := newPage_fresh (Nat.pos_of_ne_zero hzero) hb8 hbits
        have hi1 := hi.fresh hf hm hlt hal hlow hhigh hfresh hb8
        have htype := hf.typeOf hb8
        have hn : (h1.pagerefs i).nfree = pageSize / sizes b := by
          rw [hf.ref]
          rfl
        have hpos := pages_pos (sizes_class hb8)
        have hothers : ∀ j ∈ i :: all, j ≠ i →
            (h1.pagerefs j).nfree < pageSize / sizes (typeOf h1 j) := by
          intro j hj hji
          rw [hf.ref_ne hji, hf.typeOf_ne hji]
          exact hu j ((List.mem_cons.mp hj).resolve_left hji)
        have hsz' : Heap.blocktype sz = some (typeOf h1 i) := by rw [htype, hb]
        obtain ⟨p, h2, heq, hal2⟩ := hi1.doalloc_allocated List.mem_cons_self
          (by rw [hn]; exact hpos) (Nat.le_of_eq (by rw [hn, htype])) hothers hsz'
        refine ⟨p, h2, ?_, hal2⟩
        show (if page = 0 then _ else _) = _
        rw [if_neg hzero, hnew]
        exact heq

end Os161.Vm.Kheap

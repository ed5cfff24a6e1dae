import Os161.Vm.KheapPages

/-! # Freeing a block

`subpage_kfree` puts the block on the free list of its page, and gives the page back once all its
blocks are on the list. -/
namespace Os161.Vm.Kheap
open Os161.Lib

variable {h h' : Heap} {live : List Block} {handed all : List Nat} {same free : Nat → List Nat}
  {i j : Nat}

/-! ## `subpage_kfree` -/

theorem Inv.findPage (hi : Inv h live handed all same free) {a : Nat} (hm : i ∈ all)
    (hblock : IsBlock (pageOf h i) (sizes (typeOf h i)) a) : h.findPage a = some (some i) := by
  have hsearch : h.findPage a = some (all.find? fun j =>
      decide ((h.pagerefs j).pageaddr ≤ a ∧ a < (h.pagerefs j).pageaddr + pageSize)) :=
    search_spec hi.listed.allLinked hi.listed.length_le
      fun j hj => if_pos (hi.pages j hj).type
  refine hsearch.trans (congrArg some ?_)
  cases hfind : all.find? fun j =>
      decide ((h.pagerefs j).pageaddr ≤ a ∧ a < (h.pagerefs j).pageaddr + pageSize) with
  | none =>
    have hnone := List.find?_eq_none.mp hfind i hm
    exact absurd (decide_eq_true ⟨hblock.low, hblock.high⟩) hnone
  | some j =>
    have hin : (h.pagerefs j).pageaddr ≤ a ∧ a < (h.pagerefs j).pageaddr + pageSize := by
      simpa using List.find?_some hfind
    exact congrArg some
      (hi.page_unique (List.mem_of_find?_eq_some hfind) hm hin.1 hin.2 hblock.low hblock.high)

theorem erase_apart {b c : Block} (hapart : (live.map Block.ptr).Nodup) (hb : b ∈ live)
    (hc : c ∈ live.erase b) : c.ptr ≠ b.ptr := by
  have hperm := ((List.perm_cons_erase hb).map Block.ptr).nodup_iff.mp hapart
  rw [List.map_cons, List.nodup_cons] at hperm
  intro he
  exact hperm.1 (he ▸ List.mem_map_of_mem hc)

theorem fillDeadbeef_outside {mem : Nat → Nat} {a len x : Nat} (h : ¬ (a ≤ x ∧ x < a + len)) :
    Heap.fillDeadbeef mem a len x = mem x := by
  refine if_neg fun hin => h ⟨hin.1, ?_⟩
  have hlt := hin.2.1
  omega

theorem push_self (h : Heap) (i a : Nat) : (h.push i a).pagerefs i =
    relisted (h.pagerefs i) (a - pageOf h i) ((h.pagerefs i).nfree + 1) := setRef_self ..

theorem push_ne (h : Heap) (a : Nat) (hj : j ≠ i) : (h.push i a).pagerefs j = h.pagerefs j :=
  setRef_ne hj

theorem push_pageOf (h : Heap) (i a j : Nat) : pageOf (h.push i a) j = pageOf h j :=
  congrArg (fun pab => pab / pageSize * pageSize)
    (relisted_refs h i (a - pageOf h i) ((h.pagerefs i).nfree + 1) j).2.2

theorem push_typeOf (h : Heap) (i a j : Nat) : typeOf (h.push i a) j = typeOf h j :=
  congrArg (fun pab => pab % pageSize)
    (relisted_refs h i (a - pageOf h i) ((h.pagerefs i).nfree + 1) j).2.2

/-- The block of a live pointer goes to the front of the free list of its page. -/
theorem Inv.push (hi : Inv h live handed all same free) {b : Block} (hb : b ∈ live) (hm : i ∈ all)
    (hblock : IsBlock (pageOf h i) (sizes (typeOf h i)) b.ptr) (hout : b.ptr ∉ free i) :
    Inv (h.push i b.ptr) (live.erase b) handed all same
      (Function.update free i (b.ptr :: free i)) := by
  have hc := hi.pages i hm
  have hmem : ∀ j ∈ all, ∀ c ∈ free j, (h.push i b.ptr).mem c = h.mem c := by
    intro j hj c hcm
    have hcb := (hi.pages j hj).blocks c hcm
    have hne : c ≠ b.ptr := by
      intro he
      have hij := hi.page_unique hm hj hblock.low hblock.high (he ▸ hcb.low) (he ▸ hcb.high)
      exact hout (hij ▸ he ▸ hcm)
    have hfill : Heap.fillDeadbeef h.mem b.ptr (sizes (typeOf h i)) c = h.mem c :=
      fillDeadbeef_outside fun hin => hi.outside hm hj hblock hin.1 hin.2 hcb hne rfl
    exact (Function.update_of_ne hne _ _).trans hfill
  have hfree : ∀ j c, j ∈ all → c ∈ live.erase b → c.ptr ∉ free j →
      c.ptr ∉ Function.update free i (b.ptr :: free i) j := by
    intro j c _ hce hcf
    rw [Function.update_apply]
    split
    · rename_i hji
      rw [List.mem_cons, not_or]
      exact ⟨erase_apart hi.apart hb hce, hji ▸ hcf⟩
    · exact hcf
  refine hi.change ⟨rfl, rfl, rfl⟩ (relisted_refs h i _ _) (fun j hj => ?_) (fun c hcm => ?_)
    (hi.apart.sublist (List.erase_sublist.map _))
  · by_cases hji : j = i
    · subst hji
      rw [Function.update_self]
      refine ⟨by rw [push_typeOf]; exact hc.type, by rw [push_pageOf]; exact hc.low,
        by rw [push_pageOf]; exact hc.high, ?_, List.nodup_cons.mpr ⟨hout, hc.acyclic⟩, ?_, ?_⟩
      · have hvalid : (relisted (h.pagerefs j) (b.ptr - pageOf h j)
            ((h.pagerefs j).nfree + 1)).freelistOffset ≠ invalidOffset := by
          have hhigh := hblock.high
          simp only [relisted, invalidOffset]
          simp only [pageSize] at hhigh
          omega
        rw [push_self, freeHead_valid hvalid]
        refine ⟨congrArg some (Nat.add_sub_cancel' hblock.low), ?_⟩
        have hnext : nextFree (h.push j b.ptr).mem b.ptr = freeHead (h.pagerefs j) := by
          have hword : (h.push j b.ptr).mem b.ptr =
              if (h.pagerefs j).freelistOffset = invalidOffset then 0
              else (h.pagerefs j).pageaddr + (h.pagerefs j).freelistOffset :=
            Function.update_self ..
          rw [nextFree, hword, freeHead]
          split
          · rfl
          · have hlow := hc.low
            have hpos : (h.pagerefs j).pageaddr + (h.pagerefs j).freelistOffset ≠ 0 := by
              simp only [mipsKseg0, pageOf] at hlow
              omega
            rw [if_neg hpos]
        rw [hnext]
        exact hc.linked.congr fun c hcm => by rw [nextFree, nextFree, hmem j hm c hcm]
      · rw [List.length_cons, push_self, hc.count]
        rfl
      · rw [push_pageOf, push_typeOf]
        intro c hcm
        rcases List.mem_cons.mp hcm with rfl | hcm
        · exact hblock
        · exact hc.blocks c hcm
    · rw [Function.update_of_ne hji]
      exact (hi.pages j hj).congr (setRef_ne hji) (hmem j hj)
  · obtain ⟨j, hj, hp, hcf, hty⟩ := hi.live c (List.mem_of_mem_erase hcm)
    exact ⟨j, hj, hp, hfree j c hj hcm hcf, hty⟩

/-- A page whose blocks are all free has none in use. -/
theorem Inv.not_live_of_full (hi : Inv h live handed all same free) (hm : i ∈ all)
    (hn : (h.pagerefs i).nfree = pageSize / sizes (typeOf h i)) {a : Nat}
    (hblock : IsBlock (pageOf h i) (sizes (typeOf h i)) a) : a ∈ free i := by
  have hc := hi.pages i hm
  by_contra hout
  have hle := blocks_length (sizes_class hc.type) (List.nodup_cons.mpr ⟨hout, hc.acyclic⟩)
    fun c hcm => (List.mem_cons.mp hcm).elim (fun he => he ▸ hblock) (hc.blocks c)
  rw [List.length_cons, hc.count, hn] at hle
  exact Nat.not_succ_le_self _ hle

/-- The heap without a page: its pageref is on no list. -/
structure Removed (h h' : Heap) (all : List Nat) (same : Nat → List Nat) (i : Nat) : Prop where
  mem : h'.mem = h.mem
  refs : ∀ j, (h'.pagerefs j).pageaddrAndBlocktype = (h.pagerefs j).pageaddrAndBlocktype ∧
    (h'.pagerefs j).freelistOffset = (h.pagerefs j).freelistOffset ∧
    (h'.pagerefs j).nfree = (h.pagerefs j).nfree
  bits : ∀ k, h'.inuse k = (decide (k ≠ i) && h.inuse k)
  allLinked : Linked h'.allpages.next h'.allbase (all.erase i)
  sameLinked : ∀ b, b < nsizes →
    Linked (h'.samesize b).next (h'.sizebases b) ((same b).erase i)

theorem retire_removed (hl : Listed h all same) (hm : i ∈ all) (hb : typeOf h i < nsizes)
    (hn : (h.pagerefs i).nfree = pageSize / sizes (typeOf h i)) :
    ∃ h', h.retire i = some h' ∧ Removed h h' all same i := by
  have hsame : Linked (h.samesize (typeOf h i)).next (h.samesize (typeOf h i)).head
      (same (typeOf h i)) := hl.sameLinked _ hb
  have hall : Linked h.allpages.next h.allpages.head all := hl.allLinked
  obtain ⟨c, hc, hcl, hcsame⟩ :=
    Chain.unlink_head i hsame (hl.sameNodup _ hb) (hl.same_length_le hb)
  obtain ⟨d, hd, hdl, -⟩ := Chain.unlink_head i hall hl.allNodup hl.length_le
  have hremove : h.removeLists i (typeOf h i) =
      some ((h.setSamesize (typeOf h i) c).setAllpages d) := by
    have hd' : (h.setSamesize (typeOf h i) c).allpages.unlink i npagerefs none = some d := hd
    rw [Heap.removeLists, if_pos hb, hc]
    dsimp only
    rw [hd']
  have hin : ((h.setSamesize (typeOf h i) c).setAllpages d).inuse i = true := (hl.bits i).mpr hm
  obtain ⟨words, hfree, hbits⟩ := freepageref_spec (hl.bound i hm) hin
  refine ⟨{ (h.setSamesize (typeOf h i) c).setAllpages d with pagerefsInuse := words }, ?_,
    ⟨rfl, fun j => ⟨rfl, rfl, rfl⟩, hbits, hdl, fun b hb' => ?_⟩⟩
  · have hle : (h.pagerefs i).nfree ≤ pageSize / sizes (h.pagerefs i).blocktype := Nat.le_of_eq hn
    have heq : (h.pagerefs i).nfree = pageSize / sizes (h.pagerefs i).blocktype := hn
    rw [Heap.retire, if_pos hle, if_pos heq]
    show (h.removeLists i (typeOf h i)).bind _ = _
    rw [hremove]
    exact hfree
  · show Linked c.next (Function.update h.sizebases (typeOf h i) c.head b) ((same b).erase i)
    by_cases hbi : b = typeOf h i
    · subst hbi
      rw [Function.update_self]
      exact hcl
    · have hnot : i ∉ same b := fun hin => hbi ((hl.sameMem b hb' i).mp hin).2.symm
      rw [Function.update_of_ne hbi, List.erase_of_not_mem hnot]
      refine (hl.sameLinked b hb').congr fun j hj => ?_
      have hjb := ((hl.sameMem b hb' j).mp hj).2
      exact hcsame j fun hk => hbi (hjb.symm.trans ((hl.sameMem _ hb j).mp hk).2)

theorem Removed.pageOf (hr : Removed h h' all same i) (j : Nat) : pageOf h' j = pageOf h j := by
  simp only [Kheap.pageOf, PageRef.pageaddr, (hr.refs j).1]

theorem Removed.typeOf (hr : Removed h h' all same i) (j : Nat) : typeOf h' j = typeOf h j := by
  simp only [Kheap.typeOf, PageRef.blocktype, (hr.refs j).1]

theorem Removed.inv (hr : Removed h h' all same i) (hi : Inv h live handed all same free)
    (hm : i ∈ all) (hn : (h.pagerefs i).nfree = pageSize / sizes (Kheap.typeOf h i)) :
    Inv h' live handed (all.erase i) (fun b => (same b).erase i) free := by
  have hl := hi.listed
  have hmem : ∀ j ∈ all.erase i, j ∈ all := fun j => List.mem_of_mem_erase
  refine ⟨⟨hr.allLinked, hl.allNodup.erase i, fun k => ?_, fun j hj => hl.bound j (hmem j hj),
    hr.sameLinked, fun b hb => (hl.sameNodup b hb).erase i, fun b hb j => ?_⟩, fun j hj => ?_,
    fun j hj => ?_, fun j hj k hk hjk => ?_, hi.apart, fun b hb => ?_⟩
  · rw [hr.bits, Bool.and_eq_true, decide_eq_true_eq, hl.bits, hl.allNodup.mem_erase_iff]
  · rw [hr.typeOf, (hl.sameNodup b hb).mem_erase_iff, hl.allNodup.mem_erase_iff, hl.sameMem b hb,
      and_assoc]
  · have hc := hi.pages j (hmem j hj)
    have hhead : freeHead (h'.pagerefs j) = freeHead (h.pagerefs j) := by
      simp only [freeHead, PageRef.pageaddr, (hr.refs j).1, (hr.refs j).2.1]
    refine ⟨?_, by rw [hr.pageOf]; exact hc.low, by rw [hr.pageOf]; exact hc.high, ?_, hc.acyclic,
      hc.count.trans (hr.refs j).2.2.symm, ?_⟩
    · rw [hr.typeOf]
      exact hc.type
    · rw [hr.mem, hhead]
      exact hc.linked
    · rw [hr.pageOf, hr.typeOf]
      exact hc.blocks
  · rw [hr.pageOf]
    exact hi.handed j (hmem j hj)
  · rw [hr.pageOf, hr.pageOf] at hjk
    exact hi.distinct j (hmem j hj) k (hmem k hk) hjk
  · obtain ⟨j, hj, hp, hout, hty⟩ := hi.live b hb
    have hji : j ≠ i := by
      intro he
      subst he
      exact hout (hi.not_live_of_full hm hn hp)
    refine ⟨j, (List.mem_erase_of_ne hji).mpr hj, ?_⟩
    rw [hr.pageOf, hr.typeOf]
    exact ⟨hp, hout, hty⟩

/-- `h'` is `h` with the address in front of the free list `l` of page `i`, which stays in use
unless all its blocks are free now. -/
structure Freed (h : Heap) (ptr i : Nat) (l : List Nat) (h' : Heap) : Prop where
  before : Checked h i l
  linked : Linked (nextFree h'.mem) (freeHead (h'.pagerefs i)) (ptr :: l)
  count : (h'.pagerefs i).nfree = l.length + 1
  inuse : ∀ j, h'.inuse j =
    (h.inuse j && decide (j = i → l.length + 1 ≠ pageSize / sizes (typeOf h i)))

/-- `subpage_kfree` finds the page of a live block, and the block is free afterwards. -/
theorem Inv.subpageKfree (hi : Inv h live handed all same free) (hu : Used h all) {b : Block}
    (hb : b ∈ live) (hm : i ∈ all) (hblock : IsBlock (pageOf h i) (sizes (typeOf h i)) b.ptr)
    (hout : b.ptr ∉ free i) : ∃ h', h.subpageKfree b.ptr = some (true, h') ∧
      Freed h b.ptr i (free i) h' ∧
      ∃ all' same' free', Inv h' (live.erase b) handed all' same' free' ∧ Used h' all' := by
  have hip := hi.push hb hm hblock hout
  have hoff : b.ptr - (h.pagerefs i).pageaddr < pageSize ∧
      (b.ptr - (h.pagerefs i).pageaddr) % sizes (h.pagerefs i).blocktype = 0 := by
    refine ⟨?_, hblock.aligned⟩
    have hhigh : b.ptr < (h.pagerefs i).pageaddr + pageSize := hblock.high
    have hpos : 0 < pageSize := by decide
    omega
  have hfreed : ((h.push i b.ptr).pagerefs i).nfree = (h.pagerefs i).nfree + 1 := by
    rw [push_self]
    rfl
  have hothers : ∀ j ∈ all, j ≠ i → ((h.push i b.ptr).pagerefs j).nfree <
      pageSize / sizes (typeOf (h.push i b.ptr) j) := by
    intro j hj hji
    rw [push_typeOf, push_ne h b.ptr hji]
    exact hu j hj
  have hlt := hu i hm
  have hc := hi.pages i hm
  have hc' := hip.pages i hm
  rw [Function.update_self] at hc'
  have hcount : ((h.push i b.ptr).pagerefs i).nfree = (free i).length + 1 :=
    hc'.count.symm.trans (List.length_cons ..)
  have hkfree : h.subpageKfree b.ptr = ((h.push i b.ptr).retire i).map fun h => (true, h) := by
    rw [Heap.subpageKfree, hi.findPage hm hblock]
    exact if_pos hoff
  rw [hkfree]
  by_cases hfull : (h.pagerefs i).nfree + 1 = pageSize / sizes (typeOf h i)
  · have hn : ((h.push i b.ptr).pagerefs i).nfree =
        pageSize / sizes (typeOf (h.push i b.ptr) i) := by
      rw [hfreed, push_typeOf, hfull]
    obtain ⟨h', hret, hr⟩ := retire_removed hip.listed hm (hip.pages i hm).type hn
    refine ⟨h', by rw [hret]; rfl, ⟨hc, ?_, (hr.refs i).2.2.trans hcount, fun j => ?_⟩, _, _, _,
      hr.inv hip hm hn, fun j hj => ?_⟩
    · have hhead : freeHead (h'.pagerefs i) = freeHead ((h.push i b.ptr).pagerefs i) := by
        simp only [freeHead, PageRef.pageaddr, (hr.refs i).1, (hr.refs i).2.1]
      rw [hr.mem, hhead]
      exact hc'.linked
    · have hlast : (free i).length + 1 = pageSize / sizes (typeOf h i) := by
        rw [hc.count]
        exact hfull
      have hin : (h.push i b.ptr).inuse j = h.inuse j := rfl
      simp [hr.bits, hin, hlast, Bool.and_comm]
    obtain ⟨hji, hja⟩ := hip.listed.allNodup.mem_erase_iff.mp hj
    rw [hr.typeOf, (hr.refs j).2.2]
    exact hothers j hja hji
  · have hle : ((h.push i b.ptr).pagerefs i).nfree ≤
        pageSize / sizes ((h.push i b.ptr).pagerefs i).blocktype := by
      show _ ≤ pageSize / sizes (typeOf (h.push i b.ptr) i)
      rw [hfreed, push_typeOf]
      exact hlt
    have hne : ((h.push i b.ptr).pagerefs i).nfree ≠
        pageSize / sizes ((h.push i b.ptr).pagerefs i).blocktype := by
      show _ ≠ pageSize / sizes (typeOf (h.push i b.ptr) i)
      rw [hfreed, push_typeOf]
      exact hfull
    have hret : (h.push i b.ptr).retire i = some (h.push i b.ptr) := by
      rw [Heap.retire, if_pos hle, if_neg hne]
    refine ⟨_, by rw [hret]; rfl, ⟨hc, hc'.linked, hcount, fun j => ?_⟩, all, same, _, hip,
      fun j hj => ?_⟩
    · have hlast : (free i).length + 1 ≠ pageSize / sizes (typeOf h i) := by
        rw [hc.count]
        exact hfull
      have hin : (h.push i b.ptr).inuse j = h.inuse j := rfl
      simp [hin, hlast]
    by_cases hji : j = i
    · subst hji
      rw [push_typeOf, hfreed]
      exact Nat.lt_of_le_of_ne hlt hfull
    · exact hothers j hj hji

end Os161.Vm.Kheap

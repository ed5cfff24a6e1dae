import Os161.Sfs.VnodeOps
import Os161.Sfs.VnodeTable

/-! # What the vnode layer does

One specification for each function that hands out, gives back, makes or writes a vnode, on a
volume on which nothing goes wrong but the lack of space and of memory. -/
namespace Os161.Sfs
open Os161.Lib Kern Vol

variable {L : UInt32 → Prop} {v v' : Vol} {p sv : Ptr} {i c : UInt32} {w w' : World}

/-! ## Making an inode -/

/-- The vnode of a regular file just made. -/
def newFile (c : UInt32) : SfsVnode where
  vnRefcount := 1
  vnOpencount := 0
  vnOps := .sfsFileops
  svI := { SfsInode.blank with sfiType := sfsTypeFile }
  svIno := c
  svDirty := true

/-- Block `c` is taken for the inode of a new file, and the file loaded. -/
def Vol.adopts (v : Vol) (c : UInt32) : Vol := (v.alloc c).loads (newFile c)

/-- A block is cleared and taken, but nothing holds it yet. -/
theorem Grown.alloc (h : Core L v) (hp : p ∈ v.fs.sfsVnodes) (hc : Fresh v c) :
    Grown L p v (v.alloc c) ∧ SameFiles L v (v.alloc c) := by
  have hinode (i : UInt32) (hi : L i) : (v.alloc c).inode i = v.inode i := by
    have hd : (v.alloc c).disk i.toNat = v.disk i.toNat := by
      rw [disk_alloc, if_neg (hc.ne_ino h hi)]
    simp only [Vol.inode, Vol.loaded, hd]
    rfl
  have href (i : UInt32) (hi : L i) (s : Slot) (l : Path) (hl : l.length ≤ s.depth) :
      (v.alloc c).ref i s l = v.ref i s l := by
    refine Vol.ref_congr (L := L) (fun i hi s => by rw [hinode i hi]) ?_ hi s l hl
    intro i hi s l hl h0
    rw [disk_alloc, if_neg (hc.ne_ref h hi (Nat.le_of_lt hl) h0)]
  obtain ⟨hg, hs⟩ := Grown.of_alloc h hp hc (.alloc v p c) .indirect []
    (fun i hi s l hl => .inl (href i hi s l hl)) (by rw [disk_alloc, if_pos rfl])
    (fun b hb _ => by rw [disk_alloc, if_neg hb]) rfl ⟨rfl, rfl, rfl⟩ id fun _ => .refl _
  refine ⟨hg, ⟨fun i hi => ?_, href, hs⟩⟩
  rw [hinode i hi]
  exact ⟨rfl, rfl, rfl⟩

section Adopts

variable (h : Core L v) (hc : Fresh v c)
include h hc

theorem Fresh.not_live : ¬ L c := fun hL => hc.ne_ino h hL rfl

theorem loaded_fresh : (v.alloc c).loaded (newFile c).svIno = none :=
  Vol.loaded_eq_none.mpr fun _ hp => hc.ne_ino h (h.live _ hp)

variable (hp : p ∈ v.fs.sfsVnodes)
include hp

theorem inode_adopts (i : UInt32) : (v.adopts c).inode i =
    if i = c then { SfsInode.blank with sfiType := sfsTypeFile } else (v.alloc c).inode i :=
  inode_loads (n := newFile c) (Grown.alloc h hp hc).1.core (loaded_fresh h hc) i

theorem counted_adopts : Counted c 1 v (v.adopts c) :=
  have hx : Counted c 1 (v.alloc c) (v.adopts c) :=
    counted_loads (n := newFile c) (Grown.alloc h hp hc).1.core (loaded_fresh h hc) rfl rfl
  ⟨hx.refs, hx.opens, hx.keep⟩

/-- The new file is empty and has no links. -/
theorem ref_adopts (s : Slot) (l : Path) : (v.adopts c).ref c s l = 0 := by
  by_contra h0
  have h0 := ref_ne_zero_of_append (l := []) h0
  rw [ref_nil, inode_adopts h hc hp, if_pos rfl] at h0
  cases s <;> exact h0 rfl

theorem content_adopts : (v.adopts c).content c = ⟨0, fun _ => 0⟩ := by
  have hb (fb : Nat) : (v.adopts c).fileBlock c fb = 0 := by
    cases hf : fbPath fb with
    | none => rw [fileBlock_of_none hf]
    | some k => rw [fileBlock_of_path hf, ref_adopts h hc hp]
  rw [Vol.content, inode_adopts h hc hp, if_pos rfl, Content.mk.injEq]
  refine ⟨rfl, funext fun x => ?_⟩
  rw [Vol.byte, Vol.sector, if_pos (hb _)]
  rfl

theorem sameFiles_adopts : SameFiles L v (v.adopts c) := by
  have hL := hc.not_live h
  obtain ⟨hg, hs⟩ := Grown.alloc h hp hc
  refine hs.trans ?_
  have hinode (i : UInt32) (hi : L i) : (v.adopts c).inode i = (v.alloc c).inode i := by
    rw [inode_adopts h hc hp, if_neg fun hx => hL (by rwa [← hx])]
  have href (i : UInt32) (hi : L i) (s : Slot) (l : Path) (hl : l.length ≤ s.depth) :
      (v.adopts c).ref i s l = (v.alloc c).ref i s l := by
    have hroot (i : UInt32) (hi : L i) (s : Slot) :
        ((v.adopts c).inode i).root s = ((v.alloc c).inode i).root s := by rw [hinode i hi]
    have hdisk (b : Nat) : (v.adopts c).disk b = (v.alloc c).disk b := rfl
    exact Vol.ref_congr hroot (fun _ _ _ _ _ _ => hdisk _) hi s l hl
  refine ⟨fun i hi => ?_, href, fun i hi fb => Vol.sector_congr fun s l hf => .inl ?_⟩
  · rw [hinode i hi]
    exact ⟨rfl, rfl, rfl⟩
  · exact ⟨href i hi s l (Nat.le_of_eq (fbPath_length hf)), fun _ => rfl⟩

omit hp in
theorem front_alloc : Front v (v.alloc c) where
  disk b hb := by
    show (v.alloc c).disk b.toNat = _
    rw [disk_alloc, if_neg]
    rintro rfl
    exact hc.not_meta h.toGeo hb
  map hd := by cases hd
  super := rfl
  superdirty := rfl

omit hp in
theorem front_adopts : Front v (v.adopts c) :=
  have hf := front_alloc h hc
  ⟨hf.disk, hf.map, rfl, rfl⟩

theorem core_adopts : Core (fun i => L i ∨ i = c) (v.adopts c) := by
  have hg := (Grown.alloc h hp hc).1
  have h₁ := hg.core
  have hsame := sameFiles_adopts h hc hp
  have hroot : c ≠ sfsRootLocation := fun hx => hc.not_live h (by rw [hx]; exact h.root)
  have hmark (b : UInt32) : (v.adopts c).isset b = (v.isset b || decide (b = c)) :=
    isset_alloc v b c
  have howned : Owned (fun i => L i ∨ i = c) (v.adopts c) := by
    refine h.toOwned.change rfl c .self ?_ ?_
    · intro i hi r hv h0
      rcases hi with hi | rfl
      · refine .inl ⟨hi, ?_⟩
        cases r with
        | self => rfl
        | node s l => exact hsame.ref i hi s l hv
      · cases r with
        | self => exact .inr ⟨rfl, rfl, hc.clear, hc.lt, hc.not_meta h.toGeo⟩
        | node s l => exact absurd (ref_adopts h hc hp s l) h0
    · intro i hi r hv h0
      rcases hi with hi | rfl
      · have he : (v.adopts c).blk i r = v.blk i r := by
          cases r with
          | self => rfl
          | node s l => exact hsame.ref i hi s l hv
        rw [he] at h0 ⊢
        rw [hmark, h.marked i hi r hv h0, Bool.true_or]
      · cases r with
        | self =>
          show (v.adopts i).isset i = true
          rw [hmark, decide_eq_true rfl, Bool.or_true]
        | node s l => exact absurd (ref_adopts h hc hp s l) h0
  refine ⟨⟨h₁.nbits, h₁.fits, h₁.device, h₁.offsets, h₁.tail, h₁.metaSet⟩, howned,
    table_loads (n := newFile c) h₁ (loaded_fresh h hc) (fun _ => .inl) (.inr rfl) rfl rfl,
    ⟨.inl h.root, fun i hi => ?_, ops_loads (n := newFile c) h₁ (if_neg hroot).symm⟩,
    fun i hi => ?_, clean_loads (n := newFile c) h₁ (by rintro ⟨⟩)⟩
  · rw [inode_adopts h hc hp]
    by_cases hic : i = c
    · rw [if_pos hic, if_neg (hic ▸ hroot)]
    · have hi := hi.resolve_right hic
      rw [if_neg hic]
      exact h₁.type i hi
  · rcases hi with hi | rfl
    · exact h.nonzero i hi
    · exact hc.ne_zero h.toGeo

end Adopts

/-! ## Handing out references -/

/-- Block `b` is taken. -/
structure Vol.Used (v : Vol) (b : UInt32) : Prop where
  lt : b.toNat < v.nblocks
  set : v.isset b = true

theorem Core.used (h : Core L v) (hi : L i) : v.Used i :=
  ⟨(h.range i hi .self trivial (h.nonzero i hi)).1, h.marked i hi .self trivial (h.nonzero i hi)⟩

theorem wp_sfsBused {Q : Post machine Bool} (hu : (vol w).Used i) (hok : Q.ok true w) :
    (sfsBused i).wp Q w := by
  have hset : w.st.fs.sfsFreemap.isset i.toNat = true := hu.set
  have hlt : ¬ i ≥ w.st.fs.sfsSuper.spNblocks := by
    rw [ge_iff_le, UInt32.le_iff_toNat_le]
    exact Nat.not_le.mpr hu.lt
  rw [sfsBused, Prog.wp_bind, wp_getFs]
  dsimp only
  rw [if_neg hlt, Prog.wp_pure, bitmapIsset_eq, hset]
  exact hok

/-- The search through part `l` of the table. -/
theorem wp_search {Q : Post machine (Option Ptr)} {ft : UInt16} (h : Core L (vol w)) (l : List Ptr)
    (hsub : ∀ p ∈ l, p ∈ (vol w).fs.sfsVnodes)
    (hft : ft ≠ sfsTypeInval → ∀ p ∈ l, (vol w).ino p ≠ i)
    (hfound : ∀ p ∈ l, (vol w).ino p = i → ∀ w', Calm w w' →
      vol w' = (vol w).setRefs p (((vol w).fs.heap p).vnRefcount + 1) → Q.ok (some p) w')
    (hnone : (∀ p ∈ l, (vol w).ino p ≠ i) → Q.ok none w) :
    (sfsLoadvnode.search i ft l).wp Q w := by
  induction l with
  | nil =>
    rw [sfsLoadvnode.search, Prog.wp_pure]
    exact hnone fun _ hp => absurd hp List.not_mem_nil
  | cons p l ih =>
    have hp : p ∈ p :: l := List.mem_cons_self
    rw [sfsLoadvnode.search, Prog.wp_bind, wp_getVnode]
    dsimp only
    rw [Prog.wp_bind]
    refine wp_sfsBused (h.used (h.live p (hsub p hp))) ?_
    dsimp only
    rw [if_pos rfl]
    by_cases hi : (w.st.fs.heap p).svIno = i
    · rw [if_pos hi]
      have hinval : ¬ ft ≠ sfsTypeInval := fun hx => hft hx p hp hi
      rw [if_neg hinval, Prog.wp_bind, vnodeIncref, wp_modifyVnode]
      dsimp only
      rw [Prog.wp_pure]
      exact hfound p hp hi _ ⟨id, id, id⟩ rfl
    · rw [if_neg hi]
      refine ih (fun q hq => hsub q (List.mem_cons_of_mem p hq))
        (fun hx q hq => hft hx q (List.mem_cons_of_mem p hq))
        (fun q hq => hfound q (List.mem_cons_of_mem p hq)) fun hl => hnone fun q hq => ?_
      rcases List.mem_cons.mp hq with rfl | hq
      · exact hi
      · exact hl q hq

/-- `kmalloc` handed out addresses below `k`. -/
def Vol.setBrk (v : Vol) (k : Ptr) : Vol := { v with fs := { v.fs with brk := k } }

theorem core_setBrk {k : Ptr} (h : Core L v) (hk : v.fs.brk ≤ k) : Core L (v.setBrk k) :=
  { h with below := fun p hp => Nat.lt_of_lt_of_le (h.below p hp) hk }

theorem sameFiles_setBrk (k : Ptr) : SameFiles L v (v.setBrk k) :=
  ⟨fun _ _ => ⟨rfl, rfl, rfl⟩, fun _ _ _ _ _ => rfl, fun _ _ _ => rfl⟩

theorem front_setBrk (k : Ptr) : Front v (v.setBrk k) :=
  ⟨fun _ _ => rfl, fun h => ⟨h, rfl⟩, rfl, rfl⟩

/-- The vnode `n` that `init` makes is put into the table, if there is memory. -/
theorem wp_insert {Q : Post machine Unit} {ft : UInt16} {m : SfsInode} {n : SfsVnode}
    (hinit : sfsLoadvnode.init i ft m = .ok n)
    (hok : ∀ w', Calm w w' → w'.env.disk = w.env.disk → w'.st = { w.st with fs :=
      { w.st.fs.setVnode p n with sfsVnodes := w.st.fs.sfsVnodes ++ [p] } } → Q.ok () w')
    (herr : w.env.memFaults ≠ [] → ∀ w', Quiet w w' → Q.err .enomem w') :
    (sfsLoadvnode.insert i ft p m).wp Q w := by
  rw [sfsLoadvnode.insert, hinit, Prog.wp_bind, wp_ofExcept_ok]
  dsimp only
  rw [Prog.wp_bind]
  refine wp_kmalloc (fun w₁ h₁ => ?_) fun w₁ h₁ hm => ?_
  · dsimp only
    rw [if_pos rfl, Prog.wp_bind]
    refine wp_kmalloc (fun w₂ h₂ => ?_) fun w₂ h₂ hm => ?_
    · dsimp only
      rw [if_pos rfl, wp_modifyFs]
      have hq := h₁.trans h₂
      exact hok _ ⟨hq.reads, hq.writes, hq.mem⟩ hq.disk (by rw [hq.st])
    · dsimp only
      rw [if_neg Bool.false_ne_true, Prog.wp_fail]
      exact herr (fun h0 => hm (h₁.mem h0)) w₂ (h₁.trans h₂)
  · dsimp only
    rw [if_neg Bool.false_ne_true, Prog.wp_fail]
    exact herr hm w₁ h₁

/-- Loading an inode that is in no vnode. -/
theorem wp_load {Q : Post machine Ptr} {ft : UInt16} {n : SfsVnode} (h : Core L (vol w))
    (hu : (vol w).Used i) (hr : w.env.readFaults = []) (hn : (vol w).loaded i = none)
    (hinit : sfsLoadvnode.init i ft (SfsInode.ofSector ((vol w).disk i.toNat)) = .ok n)
    (hok : ∀ w', Calm w w' → vol w' = (vol w).loads n → Q.ok (vol w).fs.brk w')
    (herr : w.env.memFaults ≠ [] → ∀ k w', (vol w).fs.brk ≤ k → Calm w w' →
      vol w' = (vol w).setBrk k → Q.err .enomem w') :
    (sfsLoadvnode i ft).wp Q w := by
  have hno := Vol.loaded_eq_none.mp hn
  rw [sfsLoadvnode, Prog.wp_bind, wp_getFs]
  dsimp only
  rw [Prog.wp_bind]
  refine wp_search h _ (fun _ => id) (fun _ => hno)
    (fun p hp hx => absurd hx (hno p hp)) fun _ => ?_
  dsimp only
  rw [Prog.wp_bind]
  refine wp_kmalloc (fun w₁ h₁ => ?_) fun w₁ h₁ hm => ?_
  · have hv₁ := h₁.vol
    have hu₁ : (vol w₁).Used i := hv₁ ▸ hu
    have haddr : Addressable i w₁.st.fs := (hv₁ ▸ h : Core L (vol w₁)).addressable hu₁.lt
    dsimp only
    rw [if_pos rfl, Prog.wp_bind, wp_getFs]
    dsimp only
    rw [Prog.wp_bind, wp_modifyFs]
    dsimp only
    rw [Prog.wp_bind]
    -- the new address changes nothing that the next steps look at
    generalize hw₂ : (⟨⟨{ w₁.st.fs with brk := w₁.st.fs.brk + 1 }, w₁.st.bufs⟩, w₁.env⟩ :
      World) = w₂
    have hused : (sfsBused i).wp ⟨fun b w' => b = true ∧ w' = w₂, fun _ _ => False,
        fun _ _ => False⟩ w₂ := by
      subst hw₂
      exact wp_sfsBused ⟨hu₁.lt, hu₁.set⟩ ⟨rfl, rfl⟩
    refine hused.mono (fun b w' hx => ?_) (fun _ _ hx => hx.elim) fun _ _ hx => hx.elim
    obtain ⟨rfl, rfl⟩ := hx
    dsimp only
    rw [if_pos rfl, Prog.wp_bind, Prog.wp_mark]
    dsimp only
    rw [Prog.wp_bind, wp_attempt]
    have hreads : w'.env.readFaults = [] := by rw [← hw₂]; exact h₁.reads hr
    refine wp_sfsRblock (by rw [← hw₂]; exact ⟨haddr.lt, haddr.offsets⟩) (fun w₃ h₃ => ?_)
      fun _ _ hx => absurd hreads hx
    have hdisk : w'.env.disk i.toNat = (vol w).disk i.toNat := by
      rw [← hw₂]
      exact congrFun h₁.disk i.toNat
    have hc : Calm w w' := by
      rw [← hw₂]
      exact ⟨h₁.reads, h₁.writes, h₁.mem⟩
    have hc₃ : Calm w w₃ := hc.trans h₃.toCalm
    dsimp only
    rw [Prog.wp_bind, wp_attempt, hdisk]
    refine wp_insert hinit (fun w₄ hc₄ hd₄ hs₄ => ?_) fun hm w₄ h₄ => ?_
    · dsimp only
      rw [Prog.wp_bind, Prog.wp_mark]
      dsimp only
      rw [Prog.wp_bind, Prog.wp_mark]
      dsimp only
      rw [Prog.wp_pure, h₁.st]
      refine hok w₄ (hc₃.trans hc₄) ?_
      rw [h₃.disk, ← hw₂] at hd₄
      rw [h₃.st, ← hw₂] at hs₄
      rw [Sfs.vol, hd₄, hs₄, h₁.disk]
      dsimp only
      rw [h₁.st]
      rfl
    · dsimp only
      rw [Prog.wp_bind, Prog.wp_mark]
      dsimp only
      rw [Prog.wp_fail]
      refine herr (fun h0 => hm (hc₃.mem h0)) ((vol w).fs.brk + 1) w₄ (Nat.le_succ _)
        (hc₃.trans h₄.toCalm) ?_
      rw [h₄.vol, h₃.vol, ← hw₂, Sfs.vol]
      dsimp only
      rw [h₁.disk, h₁.st]
      rfl
  · dsimp only
    rw [if_neg Bool.false_ne_true, Prog.wp_fail]
    exact herr hm (vol w).fs.brk w₁ (Nat.le_refl _) h₁.toCalm h₁.vol

theorem init_vnodeOf (h : Core L v) (hi : L i) (hn : v.loaded i = none) :
    sfsLoadvnode.init i sfsTypeInval (SfsInode.ofSector (v.disk i.toNat)) = .ok (v.vnodeOf i) := by
  have ht : (SfsInode.ofSector (v.disk i.toNat)).sfiType =
      if i = sfsRootLocation then sfsTypeDir else sfsTypeFile := by
    rw [← h.type i hi, Vol.inode, hn]
  have hne : ¬ sfsTypeDir = sfsTypeFile := by decide
  unfold sfsLoadvnode.init Vol.vnodeOf
  simp only [ne_eq, not_true_eq_false, false_and, if_false, decide_false, ht]
  by_cases hr : i = sfsRootLocation
  · simp only [if_pos hr, if_neg hne, if_true]
  · simp only [if_neg hr, if_true]

/-- `sfs_loadvnode` for an inode that is on disk hands out a reference, if there is memory. -/
theorem wp_sfsLoadvnode {Q : Post machine Ptr} (h : Core L (vol w)) (hi : L i)
    (hr : w.env.readFaults = [])
    (hok : ∀ sv w', Opened L i sv (vol w) (vol w') → Calm w w' → Q.ok sv w')
    (herr : w.env.memFaults ≠ [] → ∀ k w', (vol w).fs.brk ≤ k → Calm w w' →
      vol w' = (vol w).setBrk k → Q.err .enomem w') :
    (sfsLoadvnode i sfsTypeInval).wp Q w := by
  cases hl : (vol w).loaded i with
  | none =>
    exact wp_load h (h.used hi) hr hl (init_vnodeOf h hi hl) (fun w' hc hv =>
      hok _ w' (by rw [hv]; exact opened_loads h hi hl) hc) herr
  | some p =>
    obtain ⟨hp, hpi⟩ := Vol.mem_of_loaded hl
    rw [sfsLoadvnode, Prog.wp_bind, wp_getFs]
    dsimp only
    rw [Prog.wp_bind]
    refine wp_search h _ (fun _ => id) (fun hx => absurd rfl hx) (fun q hq hqi w' hc hv => ?_)
      fun hx => absurd hpi (hx p hp)
    dsimp only
    rw [Prog.wp_bind, Prog.wp_mark]
    dsimp only
    rw [Prog.wp_pure]
    refine hok q w' ?_ hc
    rw [hv, ← hqi]
    exact opened_setRefs h hq

theorem init_newFile (c : UInt32) : sfsLoadvnode.init c sfsTypeFile SfsInode.blank =
    .ok (newFile c) := by
  unfold sfsLoadvnode.init newFile
  simp [sfsTypeInval, sfsTypeFile, SfsInode.blank]

/-- A block is taken, but there is no memory for its vnode. -/
def Vol.strands (v : Vol) (c : UInt32) (k : Ptr) : Vol := (v.alloc c).setBrk k

theorem wp_sfsMakeobj {Q : Post machine Ptr} (h : Ready L p w)
    (hok : ∀ c w', Fresh (vol w) c → Calm w w' → vol w' = (vol w).adopts c →
      Q.ok (vol w).fs.brk w')
    (herr : Q.err .enospc w)
    (hmem : w.env.memFaults ≠ [] → ∀ c k w', Fresh (vol w) c → (vol w).fs.brk ≤ k → Calm w w' →
      vol w' = (vol w).strands c k → Q.err .enomem w') : (sfsMakeobj sfsTypeFile).wp Q w := by
  rw [sfsMakeobj, Prog.wp_bind]
  refine wp_sfsBalloc h.core.toGeo h.writes (fun c w₁ hc hcalm hv _ => ?_) fun _ => herr
  dsimp only
  have hcore : Core L (vol w₁) := hv ▸ (Grown.alloc h.core h.vnode hc).1.core
  have hused : (vol w₁).Used c := by
    rw [hv]
    exact ⟨hc.lt, by rw [isset_alloc, decide_eq_true rfl, Bool.or_true]⟩
  have hzero : (vol w₁).disk c.toNat = Sector.zero := by rw [hv, disk_alloc, if_pos rfl]
  have hnone : (vol w₁).loaded c = none := by
    rw [hv]
    exact loaded_fresh h.core hc
  refine wp_load hcore hused (hcalm.reads h.reads) hnone
    (by rw [hzero, SfsInode.ofSector_zero]; exact init_newFile c) (fun w' hc' hv' => ?_)
    fun hm k w' hk hc' hv' => ?_
  · rw [hv] at hv' ⊢
    exact hok c w' hc (hcalm.trans hc') hv'
  · rw [hv] at hk hv'
    exact hmem (fun h0 => hm (hcalm.mem h0)) c k w' hc hk (hcalm.trans hc') hv'

theorem core_strands {k : Ptr} (h : Core L v) (hp : p ∈ v.fs.sfsVnodes) (hc : Fresh v c)
    (hk : v.fs.brk ≤ k) : Core L (v.strands c k) :=
  core_setBrk (Grown.alloc h hp hc).1.core hk

theorem sameFiles_strands {k : Ptr} (h : Core L v) (hp : p ∈ v.fs.sfsVnodes) (hc : Fresh v c) :
    SameFiles L v (v.strands c k) :=
  (Grown.alloc h hp hc).2.trans (sameFiles_setBrk k)

theorem front_strands {k : Ptr} (h : Core L v) (hc : Fresh v c) : Front v (v.strands c k) :=
  (front_alloc h hc).trans (front_setBrk k)

/-! ## Giving references back -/

theorem wp_sfsSyncInode {Q : Post machine Unit} (h : Ready L p w)
    (hok : ∀ w', Calm w w' → vol w' = (vol w).synced p → Q.ok () w') : (sfsSyncInode p).wp Q w := by
  rw [sfsSyncInode, Prog.wp_bind, wp_getVnode]
  dsimp only
  by_cases hd : (w.st.fs.heap p).svDirty = true
  · rw [if_pos hd, Prog.wp_bind]
    have ha : Addressable ((vol w).ino p) w.st.fs :=
      h.core.addressable (h.core.used (h.core.live p h.vnode)).lt
    refine wp_sfsWblock ha h.writes fun w₁ h₁ => ?_
    dsimp only
    rw [wp_modifyVnode]
    refine hok _ ⟨h₁.reads, h₁.writes, h₁.mem⟩ ?_
    have hd' : ((vol w).fs.heap p).svDirty = true := hd
    rw [Vol.synced, if_pos hd', Sfs.vol]
    dsimp only
    rw [h₁.st, h₁.disk]
    rfl
  · rw [if_neg hd, Prog.wp_pure]
    have hd' : ¬ ((vol w).fs.heap p).svDirty = true := hd
    refine hok w (.refl w) ?_
    rw [Vol.synced, if_neg hd']

theorem wp_remove {Q : Post machine Unit} (hp : p ∈ w.st.fs.sfsVnodes)
    (hone : (w.st.fs.heap p).vnRefcount = 1) (hclosed : (w.st.fs.heap p).vnOpencount = 0)
    (hok : ∀ w', Calm w w' → vol w' = (vol w).unload p → Q.ok () w') :
    (sfsReclaim.remove p).wp Q w := by
  rw [sfsReclaim.remove, Prog.wp_bind, wp_getFs]
  dsimp only
  rw [if_pos hp, Prog.wp_bind, wp_modifyFs]
  dsimp only
  rw [vnodeKill, Prog.wp_bind, wp_getVnode]
  dsimp only
  rw [if_neg (not_not.mpr hone), if_neg (not_not.mpr hclosed), Prog.wp_pure]
  exact hok _ ⟨id, id, id⟩ rfl

/-- The end of `sfs_reclaim`, after the blocks of a file without links are gone. -/
theorem wp_reclaim_end {Q : Post machine Unit} (h : Ready L p w)
    (hone : (w.st.fs.heap p).vnRefcount = 1) (hclosed : (w.st.fs.heap p).vnOpencount = 0)
    (hkeep : (w.st.fs.heap p).svI.sfiLinkcount ≠ 0 → ∀ w', Calm w w' →
      vol w' = ((vol w).synced p).unload p → Q.ok () w')
    (hgone : (w.st.fs.heap p).svI.sfiLinkcount = 0 → ∀ w', Calm w w' →
      vol w' = ((vol w).synced p).delete p → Q.ok () w') :
    (do
      sfsSyncInode p
      let n ← getVnode p
      if n.svI.sfiLinkcount = 0 then do
        sfsBfree n.svIno
        Kern.modifyInode p fun i => { i with sfiBlocks := i.sfiBlocks - 1 }
      else pure ()
      sfsReclaim.remove p : Kern Unit).wp Q w := by
  have hloc := local_synced (vol w) p
  have hcore := (core_synced h.core h.vnode).1
  rw [Prog.wp_bind]
  refine wp_sfsSyncInode h fun w₁ hc₁ hv₁ => ?_
  have hheap (q : Ptr) : w₁.st.fs.heap q = ((vol w).synced p).fs.heap q := by rw [← hv₁]; rfl
  have hlink : (w₁.st.fs.heap p).svI.sfiLinkcount = (w.st.fs.heap p).svI.sfiLinkcount := by
    rw [hheap, svI_synced]
    rfl
  have hino : (w₁.st.fs.heap p).svIno = (vol w).ino p := by
    rw [hheap]
    exact hloc.ino
  have hone₁ : (w₁.st.fs.heap p).vnRefcount = 1 := by
    rw [hheap, hloc.refcount]
    exact hone
  have hclosed₁ : (w₁.st.fs.heap p).vnOpencount = 0 := by
    rw [hheap, hloc.opencount]
    exact hclosed
  have hp₁ : p ∈ w₁.st.fs.sfsVnodes := by
    have := h.vnode
    rw [← hloc.vnodes, ← hv₁] at this
    exact this
  dsimp only
  rw [Prog.wp_bind, wp_getVnode]
  dsimp only
  rw [hlink, hino]
  by_cases h0 : (w.st.fs.heap p).svI.sfiLinkcount = 0
  · rw [if_pos h0, Prog.wp_bind]
    have hu : (vol w₁).Used ((vol w).ino p) := by
      rw [hv₁]
      exact hcore.used (h.core.live p h.vnode)
    have hg₁ : Geo (vol w₁) := hv₁ ▸ hcore.toGeo
    refine wp_sfsBfree (Nat.lt_of_lt_of_le hu.lt hg₁.le_nbits) hu.set ?_
    dsimp only
    rw [Prog.wp_bind, wp_modifyInode]
    dsimp only
    refine wp_remove hp₁ ?_ ?_ fun w' hc' hv' => hgone h0 w' ?_ ?_
    · simpa [SfsFs.modifyInode, SfsFs.modifyVnode, SfsFs.setVnode] using hone₁
    · simpa [SfsFs.modifyInode, SfsFs.modifyVnode, SfsFs.setVnode] using hclosed₁
    · exact hc₁.trans ⟨hc'.reads, hc'.writes, hc'.mem⟩
    · rw [hv', Vol.delete, hloc.ino_eq, ← hv₁]
      rfl
  · rw [if_neg h0]
    refine wp_remove hp₁ hone₁ hclosed₁ fun w' hc' hv' => hkeep h0 w' (hc₁.trans hc') ?_
    rw [hv', hv₁]

theorem wp_sfsReclaim {Q : Post machine Unit} (h : Ready L p w)
    (hone : (w.st.fs.heap p).vnRefcount = 1) (hclosed : (w.st.fs.heap p).vnOpencount = 0)
    (hroot : (vol w).ino p = sfsRootLocation → (w.st.fs.heap p).svI.sfiLinkcount ≠ 0)
    (hkeep : (w.st.fs.heap p).svI.sfiLinkcount ≠ 0 → ∀ w', Calm w w' →
      vol w' = ((vol w).synced p).unload p → Q.ok () w')
    (hgone : (w.st.fs.heap p).svI.sfiLinkcount = 0 → ∀ w₁ w', Shortened L p 0 (vol w) (vol w₁) →
      Calm w w' → vol w' = ((vol w₁).synced p).delete p → Q.ok () w') :
    (sfsReclaim p).wp Q w := by
  rw [sfsReclaim, Prog.wp_bind, wp_getVnode]
  dsimp only
  rw [if_neg (not_not.mpr hone), Prog.wp_bind, wp_getVnode]
  dsimp only
  by_cases h0 : (w.st.fs.heap p).svI.sfiLinkcount = 0
  · have hops : (w.st.fs.heap p).vnOps = .sfsFileops := by
      have := h.core.ops p h.vnode
      rwa [if_neg fun hx => hroot hx h0] at this
    rw [if_pos h0, Prog.wp_bind, vopTruncate, Prog.wp_bind, wp_getVnode]
    dsimp only
    rw [hops]
    refine wp_sfsTruncate_volume h fun w₁ hs hc => ?_
    have hp₁ : p ∈ (vol w₁).fs.sfsVnodes := by
      rw [hs.here.vnodes]
      exact h.vnode
    have hlink : (w₁.st.fs.heap p).svI.sfiLinkcount = 0 := by
      have := hs.linkcount
      rw [hs.here.inode_self h.core.toTable h.vnode, h.core.inode_eq h.vnode] at this
      exact this.trans h0
    have h₁ : Ready L p w₁ := ⟨hs.core, hp₁, hc.reads h.reads, hc.writes h.writes⟩
    exact wp_reclaim_end h₁ (hs.here.refcount.trans hone) (hs.here.opencount.trans hclosed)
      (fun hx => absurd hlink hx) fun _ w' hc' hv' => hgone h0 w₁ w' hs (hc.trans hc') hv'
  · rw [if_neg h0]
    exact wp_reclaim_end h hone hclosed (fun _ => hkeep h0) fun hx => absurd hx h0

/-- The inodes that are left when a reference to `i` is given back. -/
def Vol.lasting (v : Vol) (L : UInt32 → Prop) (i : UInt32) : UInt32 → Prop := fun j =>
  L j ∧ ¬ (j = i ∧ v.refs i = 1 ∧ (v.inode i).sfiLinkcount = 0)

theorem lasting_eq (h : ¬ (v.refs i = 1 ∧ (v.inode i).sfiLinkcount = 0)) : v.lasting L i = L :=
  funext fun _ => propext ⟨fun hx => hx.1, fun hx => ⟨hx, fun hy => h hy.2⟩⟩

theorem lasting_gone (h : v.refs i = 1 ∧ (v.inode i).sfiLinkcount = 0) :
    v.lasting L i = fun j => L j ∧ j ≠ i :=
  funext fun _ => propext ⟨fun hx => ⟨hx.1, fun hy => hx.2 ⟨hy, h⟩⟩, fun hx =>
    ⟨hx.1, fun hy => hx.2 hy.1⟩⟩

/-- A reference to inode `i` was given back. -/
structure Released (L : UInt32 → Prop) (i : UInt32) (v v' : Vol) : Prop where
  core : Core (v.lasting L i) v'
  same : SameFiles (v.lasting L i) v v'
  counted : Counted i (v.refs i - 1) v v'
  front : Front v v'

theorem Counted.of_local {k : Nat} (hl : Local p v v') {v'' : Vol} (h : Counted i k v' v'') :
    Counted i k v v'' where
  refs := by rw [h.refs, hl.refs_eq]
  opens := by rw [h.opens, hl.opens_eq]
  keep q hq hne := by
    obtain ⟨hm, hi, ho⟩ := h.keep q (by rwa [hl.vnodes]) (by rwa [hl.ino_eq])
    exact ⟨hm, by rw [hi, hl.ino_eq], ho.trans (hl.counts q).2.1⟩

theorem wp_vnodeDecref {Q : Post machine Unit} (h : Ready L p w)
    (hspare : (w.st.fs.heap p).vnOpencount < (w.st.fs.heap p).vnRefcount)
    (hroot : (vol w).ino p = sfsRootLocation → (w.st.fs.heap p).svI.sfiLinkcount ≠ 0)
    (hok : ∀ w', Calm w w' → Released L ((vol w).ino p) (vol w) (vol w') → Q.ok () w') :
    (vnodeDecref p).wp Q w := by
  have hrefs : (vol w).refs ((vol w).ino p) = (w.st.fs.heap p).vnRefcount := h.core.refs_eq h.vnode
  have hinode : (vol w).inode ((vol w).ino p) = (w.st.fs.heap p).svI := h.core.inode_eq h.vnode
  have hpos : ¬ (w.st.fs.heap p).vnRefcount = 0 := by omega
  rw [vnodeDecref, Prog.wp_bind, wp_getVnode]
  dsimp only
  rw [if_neg hpos]
  by_cases hmany : (w.st.fs.heap p).vnRefcount > 1
  · -- other references are left
    have hk : 0 < (w.st.fs.heap p).vnRefcount - 1 := by omega
    have ho : (w.st.fs.heap p).vnOpencount ≤ (w.st.fs.heap p).vnRefcount - 1 := by omega
    obtain ⟨hcore, hsame⟩ := core_setRefs h.core (p := p) hk ho
    rw [if_pos hmany, wp_modifyVnode]
    refine hok _ ⟨id, id, id⟩ ⟨?_, ?_, ?_, front_setRefs⟩
    · rw [lasting_eq (by rw [hrefs]; omega)]
      exact hcore
    · rw [lasting_eq (by rw [hrefs]; omega)]
      exact hsame
    · rw [hrefs]
      exact counted_setRefs h.core h.vnode
  · have hone : (w.st.fs.heap p).vnRefcount = 1 := by omega
    have hclosed : (w.st.fs.heap p).vnOpencount = 0 := by omega
    rw [hone] at hrefs
    rw [if_neg hmany, Prog.wp_bind, wp_attempt]
    refine wp_sfsReclaim h hone hclosed hroot (fun h0 w' hc hv => ?_) fun h0 w₁ w' hs hc hv => ?_
    · dsimp only
      rw [Prog.wp_pure]
      have hloc := local_synced (vol w) p
      have hp₁ : p ∈ ((vol w).synced p).fs.sfsVnodes := by
        rw [hloc.vnodes]
        exact h.vnode
      obtain ⟨hcore₁, hsame₁⟩ := core_synced h.core h.vnode
      obtain ⟨hcore₂, hsame₂⟩ := core_unload hcore₁ hp₁ (dirty_synced (vol w) p)
      have hcount := counted_unload hcore₁ hp₁ (hloc.opencount.trans hclosed)
      rw [hloc.ino_eq] at hcount
      have hlast : (vol w).lasting L ((vol w).ino p) = L :=
        lasting_eq fun hx => h0 (by rw [← hinode]; exact hx.2)
      refine hok w' hc ⟨?_, ?_, ?_, ?_⟩
      · rw [hlast, hv]
        exact hcore₂
      · rw [hlast, hv]
        exact hsame₁.trans hsame₂
      · rw [hrefs, hv]
        exact hcount.of_local hloc
      · rw [hv]
        exact (front_synced h.core h.vnode).trans (front_unload _ p)
    · dsimp only
      rw [Prog.wp_pure]
      have hp₁ : p ∈ (vol w₁).fs.sfsVnodes := by
        rw [hs.here.vnodes]
        exact h.vnode
      have hloc₂ := local_synced (vol w₁) p
      have hloc := hs.here.trans hloc₂
      have hino := hloc.ino_eq
      have hp₂ : p ∈ ((vol w₁).synced p).fs.sfsVnodes := by
        rw [hloc₂.vnodes]
        exact hp₁
      obtain ⟨hcore₂, hsame₂⟩ := core_synced hs.core hp₁
      obtain ⟨hcore₃, hsame₃⟩ := core_delete hcore₂ hp₂ (by rw [hino]; exact fun hx => hroot hx h0)
      have hcount := counted_delete hcore₂ hp₂ (hloc.opencount.trans hclosed)
      rw [hino] at hcore₃ hsame₃ hcount
      have hlast : (vol w).lasting L ((vol w).ino p) = fun j => L j ∧ j ≠ (vol w).ino p :=
        lasting_gone ⟨hrefs, by rw [hinode]; exact h0⟩
      refine hok w' hc ⟨?_, ?_, ?_, ?_⟩
      · rw [hlast, hv]
        exact hcore₃
      · rw [hlast, hv]
        exact (hs.toConfined.sameFiles.trans (hsame₂.mono fun _ hx => hx.1)).trans hsame₃
      · rw [hrefs, hv]
        exact hcount.of_local hloc
      · rw [hv]
        exact hs.front.trans ((front_synced hs.core hp₁).trans (front_delete _ p))

end Os161.Sfs

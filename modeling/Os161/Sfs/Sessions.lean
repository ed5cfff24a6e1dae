import Os161.Sfs.BlockSafety
import Os161.Sfs.Remount

/-! # From mksfs on

A volume from the moment `mksfs` makes it: operations, syncs and restarts in any order. The files
stay sound, whatever is done to them. -/
namespace Os161.Sfs
open Os161.Lib Kern Vol

variable {p d : Ptr} {i n : UInt32} {w w' : World} {disk disk' : Nat → Sector} {fs m : SfsFs}
  {volname : List UInt8}

/-! ## The disk mksfs writes -/

structure FreshDisk (n : UInt32) (disk : Nat → Sector) : Prop where
  magic : (SfsSuper.ofSector (disk sfsSbLocation.toNat)).spMagic = sfsMagic
  nblocks : (SfsSuper.ofSector (disk sfsSbLocation.toNat)).spNblocks = n
  root : SfsInode.ofSector (disk sfsRootLocation.toNat) =
    { SfsInode.blank with sfiType := sfsTypeDir, sfiLinkcount := 1 }
  bits : ∀ j < sfsBitmapsize n.toNat, ((disk (sfsMapLocation + j / 8 / 512)
    ⟨j / 8 % 512, Nat.mod_lt _ (by decide)⟩).toNat.testBit (j % 8) = true ↔ Reserved n.toNat j)

theorem mksfs_accepts (h : mksfs volname n disk = .ok disk') :
    volname.length < 32 ∧ sfsBitblocks n.toNat ≤ maxbitblocks := by
  simp only [mksfs, bind, Except.bind] at h
  have hv : volname.length < 32 := by
    by_contra hx
    rw [writesuper, if_pos (Nat.not_lt.mp hx)] at h
    cases h
  refine ⟨hv, ?_⟩
  rw [writesuper, if_neg (Nat.not_le.mpr hv)] at h
  by_contra hx
  dsimp only at h
  rw [writebitmap, if_pos (Nat.not_le.mp hx)] at h
  cases h

theorem mksfs_disk (hfit : sfsMapLocation + sfsBitblocks n.toNat ≤ n.toNat)
    (h : mksfs volname n disk = .ok disk') : FreshDisk n disk' := by
  obtain ⟨hv, hsize⟩ := mksfs_accepts h
  obtain ⟨sp, hmagic, hnb, hs⟩ : ∃ sp : SfsSuper, sp.spMagic = sfsMagic ∧ sp.spNblocks = n ∧
      writesuper volname n disk =
        .ok fun b => if b = sfsSbLocation.toNat then sp.toSector else disk b :=
    ⟨⟨sfsMagic, n, fun i => volname.getD i 0, fun _ => 0⟩, rfl, rfl, if_neg (Nat.not_le.mpr hv)⟩
  generalize hd₁ : (fun b => if b = sfsSbLocation.toNat then sp.toSector else disk b) = disk₁ at hs
  obtain ⟨bitbuf, hw, hbits⟩ := writebitmap_ok (writerootdir disk₁) hfit hsize
  have hdisk : disk' = diskwriteMap bitbuf (sfsBitblocks n.toNat) 0 (writerootdir disk₁) := by
    simp only [mksfs, hs, bind, Except.bind, hw, Except.ok.injEq] at h
    exact h.symm
  have hsuper : disk' sfsSbLocation.toNat = sp.toSector := by
    rw [hdisk, diskwriteMap_eq, if_neg fun hx => absurd hx.1 (by decide), ← hd₁]
    rfl
  refine ⟨?_, ?_, ?_, fun j hj => ?_⟩
  · rw [hsuper, SfsSuper.ofSector_toSector, hmagic]
  · rw [hsuper, SfsSuper.ofSector_toSector, hnb]
  · rw [hdisk, diskwriteMap_eq, if_neg fun hx => absurd hx.1 (by decide), writerootdir]
    dsimp only
    rw [if_pos rfl, SfsInode.ofSector_toSector, SfsInode.ofSector_zero]
  · obtain ⟨-, -, hbb⟩ := sfsBitmapsize_facts n.toNat
    have hk : (sfsMapLocation + j / 8 / 512 - sfsMapLocation) * sfsBlocksize +
      j / 8 % 512 = j / 8 := by
      simp only [sfsBlocksize, sfsMapLocation]
      omega
    rw [← hbits j hj, hdisk, diskwriteMap_eq, if_pos (by simp only [sfsMapLocation]; omega)]
    dsimp only
    rw [hk, Bitbuf.isset]

/-! ## The volume it mounts as -/

/-- What mounting the disk makes. -/
structure FreshMount (n : UInt32) (disk : Nat → Sector) (m : SfsFs) : Prop where
  vnodes : m.sfsVnodes = []
  device : m.dBlocks = n.toNat
  super : (SfsSuper.ofSector (disk sfsSbLocation.toNat)).terminated = m.sfsSuper
  clean : m.sfsSuperdirty = false
  nbits : m.sfsFreemap.nbits = sfsBitmapsize n.toNat
  map : ∀ x, x < sfsBitblocks n.toNat * 512 → m.sfsFreemap.v x =
    disk (sfsMapLocation + x / 512) ⟨x % 512, Nat.mod_lt _ (by decide)⟩

theorem FreshDisk.mount (h : FreshDisk n disk) (hd : fs.dBlocks = n.toNat) :
    FreshMount n disk (fs.mounted disk) := by
  generalize hsuper : (SfsSuper.ofSector (disk sfsSbLocation.toNat)).terminated = super
  have hnb : super.spNblocks = n := by rw [← hsuper, SfsSuper.terminated, h.nblocks]
  rw [SfsFs.mounted_eq hsuper, hnb]
  refine ⟨rfl, hd, hsuper, rfl, ?_, fun x hx => ?_⟩
  · dsimp only
    rw [nbits_loadMap, nbits_bitmapCreate]
  · dsimp only
    rw [loadMap_v, if_pos (by simp only [sfsBlocksize]; omega)]

section Fresh

variable (h : FreshDisk n disk) (hm : FreshMount n disk m)
    (hfit : 2 + sfsBitblocks n.toNat ≤ n.toNat)
  (hn : n.toNat * 512 ≤ 2 ^ 31)
include h hm

theorem FreshMount.spNblocks : m.sfsSuper.spNblocks = n := by
  rw [← hm.super, SfsSuper.terminated, h.nblocks]

theorem FreshMount.isset {j : Nat} (hj : j < sfsBitmapsize n.toNat) :
    m.sfsFreemap.isset j = true ↔ Reserved n.toNat j := by
  obtain ⟨-, -, hbb⟩ := sfsBitmapsize_facts n.toNat
  rw [← h.bits j hj, Bitmap.isset, hm.map _ (by omega)]

theorem FreshMount.inode : Vol.inode ⟨m, disk⟩ sfsRootLocation =
    { SfsInode.blank with sfiType := sfsTypeDir, sfiLinkcount := 1 } := by
  rw [inode_of_empty hm.vnodes, h.root]

theorem FreshMount.ref (s : Slot) (l : Path) : Vol.ref ⟨m, disk⟩ sfsRootLocation s l = 0 := by
  by_contra hx
  have hx := ref_ne_zero_of_append (l := []) hx
  rw [ref_nil, hm.inode h] at hx
  cases s <;> exact hx rfl

theorem FreshMount.content : Vol.content ⟨m, disk⟩ sfsRootLocation =
    ⟨0, Vol.byte ⟨m, disk⟩ sfsRootLocation⟩ := by
  rw [Vol.content, hm.inode h]
  rfl

include hfit hn

theorem FreshMount.geo : Geo ⟨m, disk⟩ := by
  have hnb : Vol.nblocks ⟨m, disk⟩ = n.toNat := by rw [Vol.nblocks, hm.spNblocks h]
  have hbits {j : Nat} (hj : j < m.sfsFreemap.nbits) (hr : Reserved n.toNat j) :
      m.sfsFreemap.isset j = true := by
    rw [hm.nbits] at hj
    exact (hm.isset h hj).mpr hr
  have hle : n.toNat ≤ sfsBitmapsize n.toNat := by
    simp only [sfsBitmapsize, divRoundUp, sfsBlockbits]
    omega
  refine ⟨by rw [hnb]; exact hm.nbits, by rw [hnb]; exact hfit, ?_, ?_, fun j hj hlt => ?_,
    fun b hb => ?_⟩
  · rw [hnb]
    exact Nat.le_of_eq hm.device.symm
  · show m.dBlocks * 512 ≤ 2 ^ 31
    rw [hm.device]
    exact hn
  · rw [hnb] at hj
    exact hbits hlt (.inr (.inr (.inr hj)))
  · unfold Vol.Meta at hb
    rw [hnb] at hb
    rcases hb with rfl | hb
    · refine hbits ?_ (.inl rfl)
      rw [hm.nbits]
      exact Nat.lt_of_lt_of_le (by show 0 < n.toNat; omega) hle
    · refine hbits (by rw [hm.nbits]; omega) (.inr (.inr (.inl ?_)))
      simpa only [sfsMapLocation] using hb

theorem FreshMount.describes : Describes Register.fresh ⟨m, disk⟩ := by
  have hg := hm.geo h hfit hn
  have hnb : Vol.nblocks ⟨m, disk⟩ = n.toNat := by rw [Vol.nblocks, hm.spNblocks h]
  have hle : n.toNat ≤ sfsBitmapsize n.toNat := by
    simp only [sfsBitmapsize, divRoundUp, sfsBlockbits]
    omega
  have hself {i : UInt32} (hi : i = sfsRootLocation) {r : Node} (h0 : Vol.blk ⟨m, disk⟩ i r ≠ 0) :
      r = .self := by
    subst hi
    cases r with
    | self => rfl
    | node s l => exact absurd (hm.ref h s l) h0
  have hnone {p : Ptr} (hp : p ∈ m.sfsVnodes) : False := by
    rw [hm.vnodes] at hp
    cases hp
  obtain ⟨hhandle, hrefs, hopens⟩ := counts_of_empty (v := ⟨m, disk⟩) hm.vnodes
  have hcontent := hm.content h
  have hone : sfsRootLocation.toNat = 1 := rfl
  exact
    { core :=
        { toGeo := hg
          inj := fun i hi i' hi' r _ r' _ he h0 => by
            have hr := hself hi h0
            have hr' := hself hi' (he ▸ h0)
            exact ⟨hi.trans hi'.symm, hr.trans hr'.symm⟩
          marked := fun i hi r _ h0 => by
            rw [hself hi h0]
            refine (hm.isset h ?_).mpr (.inr (.inl ?_))
            · show i.toNat < _
              rw [show i = sfsRootLocation from hi, hone]
              omega
            · show i.toNat = _
              rw [show i = sfsRootLocation from hi]
          range := fun i hi r _ h0 => by
            rw [hself hi h0]
            show i.toNat < _ ∧ ¬ Vol.Meta _ i
            rw [show i = sfsRootLocation from hi, hnb, hone]
            refine ⟨by omega, fun hx => ?_⟩
            rcases hx with hx | hx
            · cases hx
            · omega
          toTable := table_of_empty hm.vnodes
          root := rfl
          type := fun i hi => by
            rw [show i = sfsRootLocation from hi, hm.inode h, if_pos rfl]
          ops := fun p hp => (hnone hp).elim
          nonzero := fun i hi => by
            rw [show i = sfsRootLocation from hi]
            decide
          clean := fun p hp => (hnone hp).elim }
      dir :=
        { whole := by
            rw [hcontent]
            exact Nat.zero_mod _
          range := by
            rw [hcontent]
            exact Nat.zero_le _
          solid := fun x hx => by
            rw [hcontent] at hx
            cases hx }
      slots := by
        rw [Vol.table, hcontent]
        exact List.eq_nil_of_length_eq_zero ((Content.length_slots _).trans (Nat.zero_div _))
      distinct := fun _ _ _ _ _ hb => by cases hb
      named := fun _ _ _ hb => by cases hb
      links := fun i hi => by
        rw [show i = sfsRootLocation from hi, hm.inode h]
        rfl
      content := fun i hi h0 => absurd hi h0
      small := fun i hi h0 => absurd hi h0
      handles := hhandle
      refs := hrefs
      opens := hopens
      stored :=
        { super := hm.super
          magic := by
            show m.sfsSuper.spMagic = _
            rw [← hm.super]
            exact h.magic
          clean := hm.clean
          map := fun _ j hj => by
            rw [hnb] at hj
            funext k
            have hk := k.isLt
            show disk (sfsMapLocation + j) k = m.sfsFreemap.v (j * 512 + k)
            have hdiv : (j * 512 + k) / 512 = j := by omega
            have hmod : (j * 512 + k) % 512 = k := by omega
            rw [hm.map _ (by omega)]
            simp only [hdiv, hmod] } }

end Fresh

theorem mount_fresh {w₀ : World} (h : mksfs volname n disk = .ok w₀.env.disk) (h3 : 3 ≤ n.toNat)
    (hn : n.toNat + 4095 < 2 ^ 32) (hf : Faultless w₀) (hd : w₀.st.fs.dBlocks = n.toNat) :
    ∃ w, sfsDomount.run machine w₀ = (.ok (), w) ∧ Shows w Flat.empty := by
  obtain ⟨-, hsize⟩ := mksfs_accepts h
  have hfit : 2 + sfsBitblocks n.toNat ≤ n.toNat ∧ n.toNat * 512 ≤ 2 ^ 31 := by
    simp only [sfsBitblocks, sfsBitmapsize, divRoundUp, sfsBlockbits, maxbitblocks] at hsize ⊢
    omega
  have hfresh : FreshDisk n w₀.env.disk := mksfs_disk hfit.1 h
  have hmount : Mountable w₀.st.fs w₀.env.disk := by
    refine ⟨hfresh.magic, ?_, ?_⟩
    · rw [hfresh.nblocks, hd]
      exact hfit.1
    · rw [hd]
      exact hfit.2
  obtain ⟨_, w, hrun, hk⟩ := Prog.ok_of_wp (p := sfsDomount)
    (P := fun _ w => Keeps True Register.fresh w)
    (wp_domount hf hmount ((hfresh.mount hd).describes hfresh hfit.1 hfit.2) fun w h => h)
  exact ⟨w, hrun, Register.fresh, hk, Register.fresh_balanced, Register.flat_fresh⟩

/-! ## The life of a volume -/

inductive Event where
  | call (op : FsOp) (x : Except Errno FsRet)
  | restart

/-- A volume of `n` blocks: made, mounted, used, synced, and mounted again after it was synced; with
what happened so far, latest first. -/
inductive Lives (n : UInt32) : List Event → World → Prop
  | made {volname : List UInt8} {disk : Nat → Sector} {w₀ w : World}
      (hmk : mksfs volname n disk = .ok w₀.env.disk) (hf : Faultless w₀)
      (hd : w₀.st.fs.dBlocks = n.toNat) (hrun : sfsDomount.run machine w₀ = (.ok (), w)) :
      Lives n [] w
  | call {es : List Event} {w w' : World} {op : FsOp} {x : Except Errno FsRet}
      (h : Lives n es w) (hv : op.Allowed w)
      (hrun : op.call.attempt.run machine w = (.ok x, w')) : Lives n (.call op x :: es) w'
  | sync {es : List Event} {w w' : World} (h : Lives n es w)
      (hrun : sfsSync.run machine w = (.ok (), w')) : Lives n es w'
  | restart {es : List Event} {w w' w₀ w₁ : World} (h : Lives n es w)
      (hsync : sfsSync.run machine w = (.ok (), w')) (hf : Faultless w₀)
      (hdisk : w₀.env.disk = w'.env.disk) (hd : w₀.st.fs.dBlocks = w'.st.fs.dBlocks)
      (hrun : sfsDomount.run machine w₀ = (.ok (), w₁)) : Lives n (.restart :: es) w₁

/-- The same things happen to the flat file system. -/
inductive Explains : List Event → Flat → Prop
  | made : Explains [] Flat.empty
  | call {es : List Event} {s s' : Flat} {op : FsOp} {x : Except Errno FsRet} (h : Explains es s)
      (ha : Answers s op x s') : Explains (.call op x :: es) s'
  | restart {es : List Event} {s : Flat} (h : Explains es s) : Explains (.restart :: es) s.settle

theorem Lives.shows {es : List Event} (h3 : 3 ≤ n.toNat) (hn : n.toNat + 4095 < 2 ^ 32)
    (h : Lives n es w) : ∃ s, Shows w s ∧ Explains es s := by
  induction h with
  | made hmk hf hd hrun =>
    obtain ⟨w', hrun', hs⟩ := mount_fresh hmk h3 hn hf hd
    rw [hrun] at hrun'
    cases hrun'
    exact ⟨_, hs, .made⟩
  | call _ hv hrun ih =>
    obtain ⟨s, hs, he⟩ := ih
    obtain ⟨x, w', hrun', s', hs', ha, -⟩ := FsOp.meets_run hs hv
    rw [hrun] at hrun'
    cases hrun'
    exact ⟨s', hs', he.call ha⟩
  | sync _ hrun ih =>
    obtain ⟨s, hs, he⟩ := ih
    obtain ⟨w', hrun', hs', -⟩ := hs.sync_mount
    rw [hrun] at hrun'
    cases hrun'
    exact ⟨s, hs', he⟩
  | restart _ hsync hf hdisk hd hrun ih =>
    obtain ⟨s, hs, he⟩ := ih
    obtain ⟨w', hsync', -, hall⟩ := hs.sync_mount
    rw [hsync] at hsync'
    cases hsync'
    obtain ⟨w₁, hrun', hs₁⟩ := hall _ hf hdisk hd
    rw [hrun] at hrun'
    cases hrun'
    exact ⟨_, hs₁, he.restart⟩

/-! ## A device of eight blocks -/

/-- A kernel that has not mounted anything, on a disk of `n` blocks. -/
def unmounted (n : Nat) (disk : Nat → Sector) : World :=
  ⟨{ eightBlocks with fs := { eightBlocks.fs with dBlocks := n } }, ⟨disk, [], [], []⟩⟩

end Os161.Sfs

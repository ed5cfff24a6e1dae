import Os161.Sfs.Mksfs
import Os161.Sfs.NamespaceRuns
import Os161.Sfs.Syncing

/-! # Mounting

`sfs_domount` on a disk that holds a volume, and the disk that a mounted volume leaves behind when
it is synced. -/
namespace Os161.Sfs
open Os161.Lib Kern Vol

variable {L : UInt32 → Prop} {v v' : Vol} {p d : Ptr} {i : UInt32} {w w' : World} {r : Register}
  {s s' : Flat} {disk : Nat → Sector} {fs : SfsFs} {M : Prop}

/-! ## Reading the disk -/

theorem wp_kmalloc_calm {Q : Post machine Bool} (hm : w.env.memFaults = [])
    (hok : ∀ w', Quiet w w' → Q.ok true w') : kmalloc.wp Q w :=
  wp_kmalloc hok fun _ _ hx => absurd hm hx

theorem wp_map_read {Q : Post machine Unit} (n : Nat) :
    ∀ (j : Nat) (w : World), sfsMapLocation + (j + n) ≤ w.st.fs.dBlocks →
      w.st.fs.dBlocks * 512 ≤ 2 ^ 31 → w.env.readFaults = [] →
      (∀ w', Calm w w' → w'.env.disk = w.env.disk →
        w'.st.fs = { w.st.fs with sfsFreemap := loadMap w.env.disk n j w.st.fs.sfsFreemap } →
        Q.ok () w') → (sfsMapio.read n j).wp Q w := by
  induction n with
  | zero =>
    intro j w _ _ _ hok
    rw [sfsMapio.read, Prog.wp_pure]
    exact hok w (.refl w) rfl rfl
  | succ n ih =>
    intro j w hj ho hr hok
    have hto : (UInt32.ofNat (sfsMapLocation + j)).toNat = sfsMapLocation + j := by
      rw [UInt32.toNat_ofNat']
      exact Nat.mod_eq_of_lt (by omega)
    rw [sfsMapio.read, Prog.wp_bind]
    refine wp_sfsRblock ⟨by rw [hto]; omega, ho⟩ (fun w₁ h₁ => ?_) fun _ _ hx => absurd hr hx
    have hst := h₁.st
    have hdisk := h₁.disk
    dsimp only
    rw [Prog.wp_bind, wp_modifyFs, hto]
    dsimp only
    refine ih (j + 1) _ ?_ ?_ (h₁.reads hr) fun w' hc hd hfs => hok w' ?_ (hd.trans hdisk) ?_
    · dsimp only
      rw [hst]
      omega
    · dsimp only
      rw [hst]
      exact ho
    · exact h₁.toCalm.trans ⟨hc.reads, hc.writes, hc.mem⟩
    · rw [hfs]
      dsimp only
      rw [hst, hdisk, loadMap]

/-- What `sfs_domount` makes of a disk. -/
def SfsFs.mounted (fs : SfsFs) (disk : Nat → Sector) : SfsFs :=
  let super := (SfsSuper.ofSector (disk sfsSbLocation.toNat)).terminated
  { fs with
    sfsVnodes := []
    sfsSuper := super
    sfsFreemap := loadMap disk (sfsBitblocks super.spNblocks.toNat) 0
      (bitmapCreate (sfsBitmapsize super.spNblocks.toNat))
    sfsSuperdirty := false
    sfsFreemapdirty := false }

theorem SfsFs.mounted_eq {super : SfsSuper}
    (h : (SfsSuper.ofSector (disk sfsSbLocation.toNat)).terminated = super) :
    fs.mounted disk = { fs with
      sfsVnodes := []
      sfsSuper := super
      sfsFreemap := loadMap disk (sfsBitblocks super.spNblocks.toNat) 0
        (bitmapCreate (sfsBitmapsize super.spNblocks.toNat))
      sfsSuperdirty := false
      sfsFreemapdirty := false } := by
  rw [SfsFs.mounted, h]

/-- `sfs_domount` accepts the disk. -/
structure Mountable (fs : SfsFs) (disk : Nat → Sector) : Prop where
  magic : (SfsSuper.ofSector (disk sfsSbLocation.toNat)).spMagic = sfsMagic
  fits : sfsMapLocation +
    sfsBitblocks (SfsSuper.ofSector (disk sfsSbLocation.toNat)).spNblocks.toNat ≤ fs.dBlocks
  offsets : fs.dBlocks * 512 ≤ 2 ^ 31

/-- The end of `sfs_domount`, with a new map `b` of `n` blocks. -/
theorem wp_mount_map {Q : Post machine Unit} {b : Bitmap} {n : Nat} (hr : w.env.readFaults = [])
    (hm : w.env.memFaults = []) (hn : w.st.fs.bitblocks = n)
    (hfits : sfsMapLocation + n ≤ w.st.fs.dBlocks) (ho : w.st.fs.dBlocks * 512 ≤ 2 ^ 31)
    (hok : ∀ w', Calm w w' → vol w' = ⟨{ w.st.fs with
        sfsFreemap := loadMap w.env.disk n 0 b
        sfsSuperdirty := false
        sfsFreemapdirty := false }, w.env.disk⟩ → Q.ok () w') :
    (do
      if ← kmalloc then
        if ← kmalloc then do
          modifyFs fun fs => { fs with sfsFreemap := b }
          sfsMapio.read (← getFs).bitblocks 0
          modifyFs fun fs => { fs with sfsSuperdirty := false, sfsFreemapdirty := false }
        else Prog.fail .enomem
      else Prog.fail .enomem : Kern Unit).wp Q w := by
  rw [Prog.wp_bind]
  refine wp_kmalloc_calm hm fun w₁ h₁ => ?_
  dsimp only
  rw [if_pos rfl, Prog.wp_bind]
  refine wp_kmalloc_calm (h₁.mem hm) fun w₂ h₂ => ?_
  have hq := h₁.trans h₂
  have hst := hq.st
  dsimp only
  rw [if_pos rfl, Prog.wp_bind, wp_modifyFs]
  dsimp only
  rw [Prog.wp_bind, wp_getFs]
  dsimp only
  have hbits : SfsFs.bitblocks { w₂.st.fs with sfsFreemap := b } = n := by
    rw [hst]
    exact hn
  rw [Prog.wp_bind, hbits]
  refine wp_map_read n 0 _ ?_ ?_ (hq.reads hr) fun w₃ h₃ hd₃ hfs₃ => ?_
  · dsimp only
    rw [hst, Nat.zero_add]
    exact hfits
  · dsimp only
    rw [hst]
    exact ho
  dsimp only
  rw [wp_modifyFs]
  refine hok _ ?_ ?_
  · exact hq.toCalm.trans ⟨h₃.reads, h₃.writes, h₃.mem⟩
  · rw [Sfs.vol]
    dsimp only
    rw [hfs₃, hd₃]
    dsimp only
    rw [hst, hq.disk]

theorem wp_mount {Q : Post machine Unit} (h : Mountable w.st.fs w.env.disk)
    (hr : w.env.readFaults = []) (hm : w.env.memFaults = [])
    (hok : ∀ w', Calm w w' → vol w' = ⟨w.st.fs.mounted w.env.disk, w.env.disk⟩ → Q.ok () w') :
    sfsDomount.wp Q w := by
  obtain ⟨hmagic, hfits, ho⟩ := h
  rw [sfsDomount, Prog.wp_bind]
  refine wp_kmalloc_calm hm fun w₁ h₁ => ?_
  dsimp only
  rw [if_pos rfl, Prog.wp_bind]
  refine wp_kmalloc_calm (h₁.mem hm) fun w₂ h₂ => ?_
  have hq := h₁.trans h₂
  have hst := hq.st
  have hdisk := hq.disk
  dsimp only
  rw [if_pos rfl, Prog.wp_bind, wp_modifyFs]
  dsimp only
  rw [Prog.wp_bind]
  have hb : sfsSbLocation.toNat = 0 := rfl
  refine wp_sfsRblock ⟨?_, ?_⟩ (fun w₃ h₃ => ?_) fun _ _ hx => absurd (hq.reads hr) hx
  · dsimp only
    rw [hst]
    simp only [sfsMapLocation] at hfits
    omega
  · dsimp only
    rw [hst]
    exact ho
  dsimp only
  rw [hdisk, if_neg (not_not.mpr hmagic), Prog.wp_bind, wp_modifyFs]
  dsimp only
  have hcalm : Calm w w₃ := hq.toCalm.trans ⟨h₃.reads, h₃.writes, h₃.mem⟩
  -- the superblock as a variable: `sfsBitmapsize` of a record is not to be computed
  generalize hsuper : (SfsSuper.ofSector (w.env.disk sfsSbLocation.toNat)).terminated = super
  have hnb : (SfsSuper.ofSector (w.env.disk sfsSbLocation.toNat)).spNblocks = super.spNblocks := by
    rw [← hsuper, SfsSuper.terminated]
  generalize hw₄ : (⟨{ w₃.st with fs := { w₃.st.fs with sfsSuper := super } }, w₃.env⟩ : World) = w₄
  have hfs : w₄.st.fs = { w.st.fs with sfsVnodes := [], sfsSuper := super } := by
    rw [← hw₄]
    dsimp only
    rw [h₃.st]
    dsimp only
    rw [hst]
  have hdisk₄ : w₄.env.disk = w.env.disk := by
    rw [← hw₄]
    dsimp only
    rw [h₃.disk]
    exact hdisk
  have hcalm : Calm w w₄ := by
    rw [← hw₄]
    exact hq.toCalm.trans ⟨h₃.reads, h₃.writes, h₃.mem⟩
  have hd : w₄.st.fs.dBlocks = w.st.fs.dBlocks := by rw [hfs]
  have hn : w₄.st.fs.bitblocks = sfsBitblocks super.spNblocks.toNat := by rw [SfsFs.bitblocks, hfs]
  refine wp_mount_map (hcalm.reads hr) (hcalm.mem hm) hn (by rw [hd, ← hnb]; exact hfits)
    (by rw [hd]; exact ho) fun w' h' hv => hok w' (hcalm.trans h') ?_
  rw [hv, SfsFs.mounted_eq hsuper, hfs, hdisk₄]

theorem loaded_of_empty (h : v.fs.sfsVnodes = []) (i : UInt32) : v.loaded i = none := by
  rw [Vol.loaded, h, List.find?_nil]

theorem inode_of_empty (h : v.fs.sfsVnodes = []) (i : UInt32) :
    v.inode i = SfsInode.ofSector (v.disk i.toNat) := by rw [Vol.inode, loaded_of_empty h]

/-- No vnode is loaded. -/
theorem counts_of_empty (h : v.fs.sfsVnodes = []) :
    v.handle = (fun _ => none) ∧ v.refs = (fun _ => 0) ∧ v.opens = fun _ => 0 := by
  refine ⟨funext fun p => if_neg ?_, funext fun i => ?_, funext fun i => ?_⟩
  · rw [h]
    exact List.not_mem_nil
  · rw [Vol.refs, loaded_of_empty h]
  · rw [Vol.opens, loaded_of_empty h]

theorem table_of_empty (h : v.fs.sfsVnodes = []) : Table L v where
  nodup := by
    rw [h]
    exact List.nodup_nil
  live p hp := by
    rw [h] at hp
    cases hp
  below p hp := by
    rw [h] at hp
    cases hp
  held p hp := by
    rw [h] at hp
    cases hp
  opens p hp := by
    rw [h] at hp
    cases hp

/-! ## A volume that was synced -/

/-- The register when all references are gone. -/
def Register.settled (r : Register) : Register :=
  { r with
    live := fun i => i = sfsRootLocation ∨ 0 < r.slots.uses i
    handles := fun _ => none
    refs := fun _ => 0
    opens := fun _ => 0 }

theorem Register.Balanced.settled (h : r.Balanced) : r.settled.Balanced where
  links i hi := by
    refine h.links i ((h.live i).mpr ?_)
    rcases hi with hi | hi
    · exact .inl hi
    · exact .inr (.inl hi)
  live i := by
    show i = sfsRootLocation ∨ 0 < r.slots.uses i ↔ i = sfsRootLocation ∨ 0 < r.slots.uses i ∨ 0 < 0
    simp only [Nat.lt_irrefl, or_false]

theorem Register.flat_settled (h : Keeps M r w) : r.settled.flat = r.flat.settle := by
  have hobj : r.settled.flat.objects = r.flat.settle.objects := by
    funext i
    have hiff : (∃ n, r.flat.names n = some i) ↔ 0 < r.slots.uses i := by
      rw [Slots.uses_pos]
      constructor
      · intro hx
        obtain ⟨n, hn⟩ := hx
        obtain ⟨j, hj⟩ := h.names_eq.mp hn
        exact ⟨j, n, hj⟩
      · intro hx
        obtain ⟨j, n, hj⟩ := hx
        exact ⟨n, h.names_eq.mpr ⟨j, hj⟩⟩
    by_cases hu : 0 < r.slots.uses i
    · obtain ⟨j, n, hj⟩ := Slots.uses_pos.mp hu
      have hi : r.live i := h.named j n i hj
      have hi' : r.settled.live i := .inr hu
      rw [NamedStore.objects_settle (h.names_eq.mpr ⟨j, hj⟩)]
      exact Register.objects_congr (iff_of_true hi' hi) rfl
    · refine (if_neg fun hx => ?_).trans (if_neg fun hx => hu (hiff.mp hx)).symm
      exact hx.1.elim hx.2 hu
  show NamedStore.mk _ r.settled.flat.objects _ _ _ = NamedStore.mk _ r.flat.settle.objects _ _ _
  rw [hobj]
  rfl

/-- What mounting the disk of `v` makes. -/
structure Remounts (v : Vol) (m : SfsFs) : Prop where
  vnodes : m.sfsVnodes = []
  device : m.dBlocks = v.fs.dBlocks
  super : m.sfsSuper = v.fs.sfsSuper
  clean : m.sfsSuperdirty = false
  nbits : m.sfsFreemap.nbits = v.fs.sfsFreemap.nbits
  map : ∀ x, x < sfsBitblocks v.nblocks * 512 → m.sfsFreemap.v x = v.fs.sfsFreemap.v x

namespace Keeps

variable (h : Keeps M r w)
include h

theorem settled_live (hi : r.settled.live i) : r.live i := by
  rcases hi with rfl | hi
  · exact h.core.root
  · obtain ⟨j, n, hj⟩ := Slots.uses_pos.mp hi
    exact h.named j n i hj

theorem terminated_eq : (SfsSuper.ofSector (w.env.disk sfsSbLocation.toNat)).terminated =
    (vol w).fs.sfsSuper := h.stored.super

theorem spNblocks_eq : (SfsSuper.ofSector (w.env.disk sfsSbLocation.toNat)).spNblocks =
    (vol w).fs.sfsSuper.spNblocks := by rw [← h.terminated_eq, SfsSuper.terminated]

theorem mountable (hd : fs.dBlocks = w.st.fs.dBlocks) : Mountable fs w.env.disk := by
  have hfits := h.core.fits
  have hdev : (vol w).nblocks ≤ w.st.fs.dBlocks := h.core.device
  refine ⟨?_, ?_, ?_⟩
  · have := h.stored.magic
    rw [← h.terminated_eq, SfsSuper.terminated] at this
    exact this
  · rw [h.spNblocks_eq, hd]
    rw [Vol.nblocks] at hfits hdev
    simp only [sfsMapLocation]
    omega
  · rw [hd]
    exact h.core.offsets

/-- The map that is read is the map that was written. -/
theorem remounts (hf : Flushed (vol w)) (hd : fs.dBlocks = w.st.fs.dBlocks) :
    Remounts (vol w) (fs.mounted w.env.disk) := by
  rw [SfsFs.mounted_eq h.terminated_eq]
  refine ⟨rfl, hd, rfl, rfl, ?_, fun x hx => ?_⟩
  · dsimp only
    rw [nbits_loadMap, nbits_bitmapCreate, h.core.nbits, Vol.nblocks]
  · have hj : x / 512 < sfsBitblocks (vol w).nblocks := by omega
    have hsector : w.env.disk (sfsMapLocation + x / 512) =
        mapSector (vol w).fs.sfsFreemap (x / 512) := h.stored.map hf.map _ hj
    rw [Vol.nblocks] at hx
    dsimp only
    rw [loadMap_v, if_pos (by simp only [sfsBlocksize]; omega), hsector, mapSector]
    dsimp only
    congr 1
    simp only [sfsBlocksize]
    omega

variable {m : SfsFs} (hf : Flushed (vol w)) (hm : Remounts (vol w) m)
include hf hm

theorem retables : Retables r.live r.settled.live (vol w) ⟨m, w.env.disk⟩ := by
  have hnb : sfsBitmapsize (vol w).nblocks = sfsBitblocks (vol w).nblocks * 4096 :=
    (sfsBitmapsize_facts _).2.2
  refine ⟨?_, hm.device, hm.nbits, fun i => h.settled_live, fun _ _ _ => rfl, fun i hi => ?_,
    fun b hb hset => ?_⟩
  · rw [Vol.nblocks, hm.super, Vol.nblocks]
  · rw [inode_of_empty hm.vnodes]
    cases hl : (vol w).loaded i with
    | none =>
      rw [Vol.inode, hl]
      exact .refl _
    | some p =>
      obtain ⟨hp, rfl⟩ := Vol.mem_of_loaded hl
      rw [h.core.inode_eq hp]
      exact h.core.clean p hp (hf.vnodes p hp)
  · left
    rw [h.core.nbits] at hb
    rw [Vol.isset, Bitmap.isset] at hset ⊢
    rwa [hm.map _ (by omega)]

theorem settled : Describes r.settled ⟨m, w.env.disk⟩ := by
  have hr := h.retables hf hm
  have hs := hr.sameFiles h.core
  have hroot : r.settled.live sfsRootLocation := .inl rfl
  have hnone {p : Ptr} (hp : p ∈ m.sfsVnodes) : False := by
    rw [hm.vnodes] at hp
    cases hp
  obtain ⟨hhandle, hrefs, hopens⟩ := counts_of_empty (v := ⟨m, w.env.disk⟩) hm.vnodes
  exact
    { core := hr.core h.core (table_of_empty hm.vnodes) hroot (fun p hp => (hnone hp).elim)
        fun p hp => (hnone hp).elim
      dir := h.dir.same hs hroot
      slots := (hs.table hroot).trans h.slots
      distinct := h.distinct
      named := fun j n i hb => .inr (Slots.uses_pos.mpr ⟨j, n, hb⟩)
      links := fun i hi => by
        rw [(hs.attrs i hi).linkcount]
        exact h.links i (h.settled_live hi)
      content := fun i hi h0 => by
        rw [hs.content hi]
        exact h.content i (h.settled_live hi) h0
      small := fun i hi => h.small i (h.settled_live hi)
      handles := hhandle
      refs := hrefs
      opens := hopens
      stored :=
        { super := by
            rw [hm.super]
            exact h.stored.super
          magic := by
            rw [hm.super]
            exact h.stored.magic
          clean := hm.clean
          map := fun _ j hj => by
            rw [Vol.nblocks, hm.super] at hj
            refine Eq.trans (h.stored.map hf.map j hj) (funext fun k => ?_)
            have hk := k.isLt
            have hx : j * 512 + k < sfsBitblocks (vol w).nblocks * 512 := by
              rw [Vol.nblocks]
              omega
            exact (hm.map _ hx).symm } }

end Keeps

/-! ## Mounting again -/

theorem wp_domount {Q : Post machine Unit} (hf : Faultless w) (hm : Mountable w.st.fs w.env.disk)
    (hrest : Describes r ⟨w.st.fs.mounted w.env.disk, w.env.disk⟩)
    (hok : ∀ w', Keeps True r w' → Q.ok () w') : sfsDomount.wp Q w := by
  refine wp_mount hm hf.reads hf.mem fun w' hc hv => hok w' ⟨?_, hf.working.calm hc⟩
  rw [hv]
  exact hrest

/-- A volume that was synced can be mounted again, on a kernel that knows nothing of it: the names
lead to the same files, and the files hold what they held. -/
theorem Carries.sync_mount (hs : Shows w s) :
    ∃ w', sfsSync.run machine w = (.ok (), w') ∧ Shows w' s ∧
      ∀ w₀, Faultless w₀ → w₀.env.disk = w'.env.disk → w₀.st.fs.dBlocks = w'.st.fs.dBlocks →
        ∃ w₁, sfsDomount.run machine w₀ = (.ok (), w₁) ∧ Shows w₁ s.settle := by
  obtain ⟨r, h, hb, rfl⟩ := hs
  obtain ⟨_, w', hrun, h', hflushed⟩ := Prog.ok_of_wp (p := sfsSync)
    (P := fun _ w' => Keeps True r w' ∧ Flushed (vol w')) (h.wp_sync fun w' h' hf => ⟨h', hf⟩)
  refine ⟨w', hrun, ⟨r, h', hb, rfl⟩, fun w₀ hf hdisk hd => ?_⟩
  have hm := h'.mountable hd
  have hrest := h'.settled hflushed (h'.remounts hflushed hd)
  rw [← hdisk] at hm hrest
  obtain ⟨_, w₁, hrun', h₁⟩ := Prog.ok_of_wp (p := sfsDomount)
    (P := fun _ w₁ => Keeps True r.settled w₁) (wp_domount hf hm hrest fun w₁ h₁ => h₁)
  exact ⟨w₁, hrun', r.settled, h₁, hb.settled, Register.flat_settled h'⟩

end Os161.Sfs

import Os161.Sfs.Mount
import Os161.Sfs.Namespace

/-! # Syncing

`sfs_sync` on a volume on which nothing goes wrong: afterwards the disk holds all there is to know
about the files. -/
namespace Os161.Sfs
open Os161.Lib Kern Vol

variable {L : UInt32 → Prop} {v v' : Vol} {p d : Ptr} {w w' : World} {r : Register} {M : Prop}

/-- Nothing is left in memory only. -/
structure Flushed (v : Vol) : Prop where
  vnodes : ∀ p ∈ v.fs.sfsVnodes, (v.fs.heap p).svDirty = false
  map : v.fs.sfsFreemapdirty = false

/-! ## The free map -/

theorem wp_map_write {Q : Post machine Unit} (n : Nat) :
    ∀ (j : Nat) (w : World), sfsMapLocation + (j + n) ≤ w.st.fs.dBlocks →
      w.st.fs.dBlocks * 512 ≤ 2 ^ 31 → w.env.writeFaults = [] →
      (∀ w', Calm w w' → w'.st = w.st → w'.env.disk = (fun b =>
        if sfsMapLocation + j ≤ b ∧ b < sfsMapLocation + j + n then
          mapSector w.st.fs.sfsFreemap (b - sfsMapLocation) else w.env.disk b) → Q.ok () w') →
      (sfsMapio.write n j).wp Q w := by
  induction n with
  | zero =>
    intro j w _ _ _ hok
    rw [sfsMapio.write, Prog.wp_pure]
    refine hok w (.refl w) rfl (funext fun b => ?_)
    rw [if_neg (by omega)]
  | succ n ih =>
    intro j w hj ho hw hok
    have hto : (UInt32.ofNat (sfsMapLocation + j)).toNat = sfsMapLocation + j := by
      rw [UInt32.toNat_ofNat']
      exact Nat.mod_eq_of_lt (by omega)
    rw [sfsMapio.write, Prog.wp_bind]
    refine wp_sfsWblock ⟨by rw [hto]; omega, ho⟩ hw fun w₁ h₁ => ?_
    have hst := h₁.st
    dsimp only
    refine ih (j + 1) w₁ (by rw [hst]; omega) (by rw [hst]; exact ho) (h₁.writes hw)
      fun w' hc hst' hdisk => hok w' (h₁.toCalm.trans hc) (hst'.trans hst) ?_
    rw [hdisk, h₁.disk, hto, hst]
    funext b
    dsimp only
    by_cases hb : b = sfsMapLocation + j
    · rw [if_neg (by omega), if_pos hb, if_pos (by omega), hb, Nat.add_sub_cancel_left]
    · rw [if_neg hb]
      refine if_congr ?_ rfl rfl
      omega

/-- The free map on disk. -/
def Vol.mapWritten (v : Vol) : Vol :=
  if v.fs.sfsFreemapdirty = true then
    ⟨{ v.fs with sfsFreemapdirty := false }, fun b =>
      if sfsMapLocation ≤ b ∧ b < sfsMapLocation + sfsBitblocks v.nblocks then
        mapSector v.fs.sfsFreemap (b - sfsMapLocation) else v.disk b⟩
  else v

theorem fs_mapWritten (v : Vol) : v.mapWritten.fs = { v.fs with sfsFreemapdirty := false } := by
  rw [Vol.mapWritten]
  split
  · rfl
  · next h => rw [← Bool.eq_false_iff.mpr h]

theorem disk_mapWritten {b : UInt32} (hb : ¬ v.Meta b) :
    v.mapWritten.disk b.toNat = v.disk b.toNat := by
  rw [Vol.mapWritten]
  split
  · dsimp only
    rw [if_neg fun hx => hb (.inr hx)]
  · rfl

theorem disk_mapWritten_super (v : Vol) :
    v.mapWritten.disk sfsSbLocation.toNat = v.disk sfsSbLocation.toNat := by
  rw [Vol.mapWritten]
  split
  · dsimp only
    rw [if_neg fun hx => absurd hx.1 (by decide)]
  · rfl

theorem loaded_mapWritten (v : Vol) : v.mapWritten.loaded = v.loaded := by
  funext i
  simp only [Vol.loaded, Vol.ino, fs_mapWritten]
  rfl

theorem Core.mapWritten (h : Core L v) : Core L v.mapWritten ∧ SameFiles L v v.mapWritten := by
  have hinode (i : UInt32) (hi : L i) : v.mapWritten.inode i = v.inode i := by
    rw [Vol.inode, loaded_mapWritten, fs_mapWritten, disk_mapWritten (h.ino_not_meta hi), Vol.inode]
  have hr : Retables L L v v.mapWritten := by
    refine ⟨by rw [Vol.nblocks, fs_mapWritten]; rfl, by rw [fs_mapWritten], by rw [fs_mapWritten],
      fun _ => id, fun b _ hb => disk_mapWritten hb, fun i hi => ?_, fun b _ hb => ?_⟩
    · rw [hinode i hi]
      exact .refl _
    · rw [Vol.isset, fs_mapWritten]
      exact .inl hb
  refine ⟨hr.core h ?_ h.root ?_ ?_, hr.sameFiles h⟩
  · have hino : v.mapWritten.ino = v.ino := by
      funext q
      rw [Vol.ino, fs_mapWritten, Vol.ino]
    refine ⟨?_, ?_, ?_, ?_, ?_⟩ <;> rw [fs_mapWritten]
    · rw [hino]
      exact h.nodup
    · rw [hino]
      exact h.live
    · exact h.below
    · exact h.held
    · exact h.opens
  · rw [fs_mapWritten]
    intro q hq
    rw [Vol.ino, fs_mapWritten]
    exact h.ops q hq
  · intro q hq hd
    rw [fs_mapWritten] at hq hd
    have hino : v.mapWritten.ino q = v.ino q := by rw [Vol.ino, fs_mapWritten, Vol.ino]
    rw [hino, fs_mapWritten, disk_mapWritten (h.ino_not_meta (h.live q hq))]
    exact h.clean q hq hd

theorem Stored.mapWritten (hs : Stored v) : Stored v.mapWritten where
  super := by
    rw [disk_mapWritten_super, fs_mapWritten]
    exact hs.super
  magic := by
    rw [fs_mapWritten]
    exact hs.magic
  clean := by
    rw [fs_mapWritten]
    exact hs.clean
  map _ j hj := by
    rw [Vol.nblocks, fs_mapWritten] at hj
    have hj' : j < sfsBitblocks v.nblocks := hj
    rw [fs_mapWritten, Vol.mapWritten]
    split
    · dsimp only
      rw [if_pos (by omega), Nat.add_sub_cancel_left]
    · next h => exact hs.map (Bool.eq_false_iff.mpr h) j hj'

/-! ## The whole volume -/

namespace Keeps

variable (h : Keeps M r w)
include h

/-- The loop over the loaded vnodes: those in front of `i` are clean. -/
theorem sync_vnodes {Q : Post machine Unit} {n i : Nat}
    (hn : i + n = (vol w).fs.sfsVnodes.length)
    (hi : ∀ p ∈ (vol w).fs.sfsVnodes.take i, ((vol w).fs.heap p).svDirty = false)
    (hok : ∀ w', Keeps M r w' →
      (∀ p ∈ (vol w').fs.sfsVnodes, ((vol w').fs.heap p).svDirty = false) → Q.ok () w') :
    (sfsSync.vnodes n i).wp Q w := by
  induction n generalizing w i with
  | zero =>
    rw [sfsSync.vnodes, Prog.wp_pure]
    refine hok w h fun p hp => hi p ?_
    rwa [List.take_of_length_le (by omega)]
  | succ n ih =>
    have hlt : i < (vol w).fs.sfsVnodes.length := by omega
    have hget : w.st.fs.sfsVnodes[i]? = some ((vol w).fs.sfsVnodes[i]) :=
      List.getElem?_eq_getElem hlt
    rw [sfsSync.vnodes, Prog.wp_bind, wp_getFs]
    dsimp only
    rw [hget]
    dsimp only
    rw [Prog.wp_bind, wp_attempt]
    refine h.wp_fsync (List.getElem_mem hlt) fun w₁ h₁ hv => ?_
    have hloc := local_synced (vol w) ((vol w).fs.sfsVnodes[i])
    have hvn : (vol w₁).fs.sfsVnodes = (vol w).fs.sfsVnodes := by rw [hv, hloc.vnodes]
    dsimp only
    refine ih h₁ (by rw [hvn]; omega) fun p hp => ?_
    rw [hvn, List.take_succ_eq_append_getElem hlt, List.mem_append, List.mem_singleton] at hp
    rw [hv]
    by_cases hpi : p = (vol w).fs.sfsVnodes[i]
    · rw [hpi]
      exact dirty_synced _ _
    · rw [hloc.heap p hpi]
      exact hi p (hp.resolve_right hpi)

theorem map_written (hc : Calm w w') (hv : vol w' = (vol w).mapWritten) : Keeps M r w' := by
  obtain ⟨hcore, hsame⟩ := h.core.mapWritten
  have hst := h.stored.mapWritten
  have hfs := fs_mapWritten (vol w)
  rw [← hv] at hcore hsame hst hfs
  refine h.tidy hc hcore hsame (by rw [hfs]) ?_ (fun q => ?_) hst
  · funext q
    rw [Vol.ino, hfs, Vol.ino]
  · rw [hfs]
    exact ⟨rfl, rfl⟩

/-- The end of `sfs_sync`: the superblock never needs to be written. -/
theorem sync_super {Q : Post machine Unit} (hok : Q.ok () w) :
    (do
      if (← getFs).sfsSuperdirty then do
        sfsWblock (fun k => k.fs.sfsSuper.toSector) sfsSbLocation
        modifyFs fun fs => { fs with sfsSuperdirty := false }
      else pure () : Kern Unit).wp Q w := by
  have hclean : ¬ w.st.fs.sfsSuperdirty = true := Bool.eq_false_iff.mp h.stored.clean
  rw [Prog.wp_bind, wp_getFs]
  dsimp only
  rw [if_neg hclean, Prog.wp_pure]
  exact hok

theorem wp_sync {Q : Post machine Unit}
    (hok : ∀ w', Keeps M r w' → Flushed (vol w') → Q.ok () w') : sfsSync.wp Q w := by
  rw [sfsSync, Prog.wp_bind, wp_getFs]
  dsimp only
  rw [Prog.wp_bind]
  refine h.sync_vnodes (by rw [Nat.zero_add]; rfl) (fun p hp => (by cases hp))
    fun w₁ h₁ hclean => ?_
  dsimp only
  rw [Prog.wp_bind, wp_getFs]
  dsimp only
  by_cases hd : w₁.st.fs.sfsFreemapdirty = true
  · have hbit : w₁.st.fs.bitblocks = sfsBitblocks (vol w₁).nblocks := rfl
    rw [if_pos hd, Prog.wp_bind, wp_getFs]
    dsimp only
    rw [Prog.wp_bind]
    refine wp_map_write _ 0 w₁ ?_ h₁.core.offsets h₁.writes fun w₂ hc₂ hst₂ hdisk₂ => ?_
    · have hfits := h₁.core.fits
      have hdev : (vol w₁).nblocks ≤ w₁.st.fs.dBlocks := h₁.core.device
      simp only [sfsMapLocation, hbit]
      omega
    dsimp only
    rw [Prog.wp_bind, wp_modifyFs]
    dsimp only
    generalize hw₃ : (⟨{ w₂.st with fs := { w₂.st.fs with sfsFreemapdirty := false } },
      w₂.env⟩ : World) = w₃
    have hc₃ : Calm w₁ w₃ := by
      rw [← hw₃]
      exact ⟨hc₂.reads, hc₂.writes, hc₂.mem⟩
    have hv : vol w₃ = (vol w₁).mapWritten := by
      have hd' : (vol w₁).fs.sfsFreemapdirty = true := hd
      rw [← hw₃, Vol.mapWritten, if_pos hd', Sfs.vol]
      dsimp only
      rw [hst₂, hdisk₂, hbit]
      rfl
    have h₂ := h₁.map_written hc₃ hv
    refine h₂.sync_super (hok _ h₂ ⟨?_, ?_⟩)
    · rw [hv, fs_mapWritten]
      exact hclean
    · rw [hv, fs_mapWritten]
  · rw [if_neg hd]
    exact h₁.sync_super (hok w₁ h₁ ⟨hclean, Bool.eq_false_iff.mpr hd⟩)

end Keeps

end Os161.Sfs

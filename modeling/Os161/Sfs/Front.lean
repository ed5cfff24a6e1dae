import Os161.Sfs.Blocks

/-! # The blocks in front of the files

The superblock and the free map on disk are written by nobody but `sfs_sync`; whoever changes the
free map in memory notes that it is to be written. -/
namespace Os161.Sfs
open Os161.Lib Vol

variable {L : UInt32 → Prop} {v v' : Vol} {p : Ptr}

structure Front (v v' : Vol) : Prop where
  disk : ∀ b : UInt32, v.Meta b → v'.disk b.toNat = v.disk b.toNat
  map : v'.fs.sfsFreemapdirty = false →
    v.fs.sfsFreemapdirty = false ∧ v'.fs.sfsFreemap = v.fs.sfsFreemap
  super : v'.fs.sfsSuper = v.fs.sfsSuper
  superdirty : v'.fs.sfsSuperdirty = v.fs.sfsSuperdirty

namespace Front

theorem refl (v : Vol) : Front v v := ⟨fun _ _ => rfl, fun h => ⟨h, rfl⟩, rfl, rfl⟩

theorem meta_iff (h : Front v v') (b : UInt32) : v'.Meta b ↔ v.Meta b := by
  simp only [Vol.Meta, Vol.nblocks, h.super]

theorem trans {a b c : Vol} (h : Front a b) (h' : Front b c) : Front a c where
  disk x hx := (h'.disk x ((h.meta_iff x).mpr hx)).trans (h.disk x hx)
  map hd := by
    obtain ⟨hd, he⟩ := h'.map hd
    obtain ⟨hd, he'⟩ := h.map hd
    exact ⟨hd, he.trans he'⟩
  super := h'.super.trans h.super
  superdirty := h'.superdirty.trans h.superdirty

/-- The map is to be written. -/
theorem of_dirty (hl : Local p v v') (hd : v'.fs.sfsFreemapdirty = true)
    (h : ∀ b : UInt32, v.Meta b → v'.disk b.toNat = v.disk b.toNat) : Front v v' where
  disk := h
  map h0 := by
    rw [hd] at h0
    cases h0
  super := hl.super
  superdirty := hl.superdirty

theorem of_touched (h : Touched L p v v') : Front v v' where
  disk b _ := by rw [h.disk]
  map hd := ⟨by rwa [h.mapdirty] at hd, h.freemap⟩
  super := h.here.super
  superdirty := h.here.superdirty

end Front

theorem Core.ref_not_meta (h : Core L v) {i : UInt32} (hi : L i) {s : Slot} {l : Path}
    (hl : l.length ≤ s.depth) (h0 : v.ref i s l ≠ 0) : ¬ v.Meta (v.ref i s l) :=
  (h.range i hi (.node s l) hl h0).2

theorem Core.ino_not_meta (h : Core L v) {i : UInt32} (hi : L i) : ¬ v.Meta i :=
  (h.range i hi .self trivial (h.nonzero i hi)).2

theorem FileStep.front {π : Perm} (h : Core L v) (hp : p ∈ v.fs.sfsVnodes)
    (hs : FileStep π p v v') : Front v v' := by
  have hLp := h.live p hp
  have hne {b c : UInt32} (hb : v.Meta b) (hc : ¬ v.Meta c) : b ≠ c := fun he => hc (he ▸ hb)
  cases hs with
  | @plant s c _ hc _ =>
    refine .of_dirty (.plant v p s c) rfl fun b hb => ?_
    rw [Vol.plant, disk_modifyVnode, disk_alloc, if_neg (hne hb (hc.not_meta h.toGeo))]
  | @graft s l j c _ _ hc hl h0 _ =>
    refine .of_dirty (.graft v p _ j c) rfl fun b hb => ?_
    rw [graft_disk, if_neg (hne hb (h.ref_not_meta hLp (Nat.le_of_lt hl) h0)),
      if_neg (hne hb (hc.not_meta h.toGeo))]
  | @leak c _ hc =>
    refine .of_dirty (.leak v p c) rfl fun b hb => ?_
    rw [Vol.leak, disk_modifyVnode, disk_alloc, if_neg (hne hb (hc.not_meta h.toGeo))]
  | @put fb s _ h0 =>
    obtain ⟨t, l, hf, hb⟩ := path_of_fileBlock h0
    refine ⟨fun b hm => ?_, fun hd => ⟨hd, rfl⟩, rfl, rfl⟩
    rw [disk_setDisk, if_neg]
    rw [hb] at h0 ⊢
    exact hne hm (h.ref_not_meta hLp (Nat.le_of_eq (fbPath_length hf)) h0)

theorem FileSteps.front {π : Perm} (h : Core L v) (hp : p ∈ v.fs.sfsVnodes)
    (hs : FileSteps π p v v') : Front v v' := by
  induction hs with
  | refl => exact .refl v
  | tail hs₁ hs ih =>
    have hg := FileSteps.grown h hp hs₁
    exact ih.trans (hs.front hg.core (by rw [hg.here.vnodes]; exact hp))

/-! ## What is on disk -/

/-- In front of the files the disk holds what the kernel has in memory, but for a map that is to be
written. -/
structure Stored (v : Vol) : Prop where
  super : (SfsSuper.ofSector (v.disk sfsSbLocation.toNat)).terminated = v.fs.sfsSuper
  magic : v.fs.sfsSuper.spMagic = sfsMagic
  clean : v.fs.sfsSuperdirty = false
  map : v.fs.sfsFreemapdirty = false → ∀ j, j < sfsBitblocks v.nblocks →
    v.disk (sfsMapLocation + j) = mapSector v.fs.sfsFreemap j

theorem Geo.map_toNat (h : Geo v) {j : Nat} (hj : j < sfsBitblocks v.nblocks) :
    (UInt32.ofNat (sfsMapLocation + j)).toNat = sfsMapLocation + j := by
  have hfits := h.fits
  have hlt : v.nblocks < 2 ^ 32 := UInt32.toNat_lt _
  rw [UInt32.toNat_ofNat', Nat.mod_eq_of_lt]
  simp only [sfsMapLocation]
  omega

theorem Geo.meta_map (h : Geo v) {j : Nat} (hj : j < sfsBitblocks v.nblocks) :
    v.Meta (UInt32.ofNat (sfsMapLocation + j)) := by
  refine .inr ?_
  rw [h.map_toNat hj]
  simp only [sfsMapLocation]
  omega

theorem Stored.front (hs : Stored v) (h : Geo v) (hf : Front v v') : Stored v' where
  super := by
    rw [hf.super, hf.disk sfsSbLocation (.inl rfl)]
    exact hs.super
  magic := by
    rw [hf.super]
    exact hs.magic
  clean := by
    rw [hf.superdirty]
    exact hs.clean
  map hd j hj := by
    obtain ⟨hd, he⟩ := hf.map hd
    have hj' : j < sfsBitblocks v.nblocks := by
      simp only [Vol.nblocks, hf.super] at hj
      exact hj
    have := hf.disk _ (h.meta_map hj')
    rw [h.map_toNat hj'] at this
    rw [he, this]
    exact hs.map hd j hj'

end Os161.Sfs

import Os161.Sfs.Front

/-! # Giving blocks back

What `sfs_truncate` does to a volume: places of one file are gone, and some of the blocks that were
in them are released. The places that are left hold what they held. -/
namespace Os161.Sfs
open Os161.Lib Vol

variable {L : UInt32 → Prop} {v v' : Vol} {p : Ptr} {i : UInt32}

structure Pruned (L : UInt32 → Prop) (p : Ptr) (v v' : Vol) : Prop extends Confined L p v v' where
  prune : ∀ s l, l.length ≤ s.depth →
    v'.ref (v.ino p) s l = v.ref (v.ino p) s l ∨ v'.ref (v.ino p) s l = 0
  kept : ∀ fb, v'.fileBlock (v.ino p) fb ≠ 0 →
    v'.fileBlock (v.ino p) fb = v.fileBlock (v.ino p) fb ∧
      v'.sector (v.ino p) fb = v.sector (v.ino p) fb
  front : Front v v'

/-- Only the indirect block of the file may be written, and a block is released only if its place
is gone. -/
structure Trims (p : Ptr) (v v' : Vol) : Prop where
  here : Local p v v'
  place : ∀ s l, l.length ≤ s.depth →
    v'.ref (v.ino p) s l = v.ref (v.ino p) s l ∨ v'.ref (v.ino p) s l = 0
  disk : ∀ b : UInt32, (b = v.ref (v.ino p) .indirect [] → b = 0) → v'.disk b.toNat = v.disk b.toNat
  marked : ∀ b, v.isset b = true → v'.isset b = true ∨
    ∃ s l, l.length ≤ s.depth ∧ v.ref (v.ino p) s l = b ∧ b ≠ 0 ∧ v'.ref (v.ino p) s l = 0
  tail : ∀ j, 2 ^ 32 ≤ j → v'.fs.sfsFreemap.isset j = v.fs.sfsFreemap.isset j
  map : v'.fs.sfsFreemapdirty = false →
    v.fs.sfsFreemapdirty = false ∧ v'.fs.sfsFreemap = v.fs.sfsFreemap
  type : (v'.fs.heap p).svI.sfiType = (v.fs.heap p).svI.sfiType
  dirty : (v'.fs.heap p).svDirty = true

namespace Trims

variable (ht : Trims p v v') (h : Core L v) (hp : p ∈ v.fs.sfsVnodes)
include ht h hp

theorem ino_disk (hi : L i) : v'.disk i.toNat = v.disk i.toNat := by
  refine ht.disk i fun he => ?_
  by_contra h0
  exact h.ref_ne_ino (h.live p hp) hi (Nat.zero_le _) (he ▸ h0) he.symm

theorem inode_eq (hi : L i) (hn : i ≠ v.ino p) : v'.inode i = v.inode i :=
  ht.here.inode_eq hn fun _ => ht.ino_disk h hp hi

/-- The blocks of another file are other blocks than the indirect block of this one. -/
theorem block_disk (hi : L i) {s : Slot} {l : Path} (hl : l.length ≤ s.depth)
    (h0 : v.ref i s l ≠ 0) (hn : ¬ (i = v.ino p ∧ s = .indirect ∧ l = [])) :
    v'.disk (v.ref i s l).toNat = v.disk (v.ref i s l).toNat :=
  ht.disk _ fun he => absurd (h.ref_inj hi (h.live p hp) hl (Nat.zero_le _) he h0) hn

theorem ref_eq (hi : L i) (hn : i ≠ v.ino p) (s : Slot) (l : Path) (hl : l.length ≤ s.depth) :
    v'.ref i s l = v.ref i s l := by
  refine Vol.ref_congr (L := fun i => L i ∧ i ≠ v.ino p) ?_ ?_ ⟨hi, hn⟩ s l hl
  · intro i hi s
    rw [ht.inode_eq h hp hi.1 hi.2]
  · intro i hi s l hl h0
    exact ht.block_disk h hp hi.1 (Nat.le_of_lt hl) h0 fun hx => hi.2 hx.1

theorem ref_back (hi : L i) {s : Slot} {l : Path} (hl : l.length ≤ s.depth)
    (h0 : v'.ref i s l ≠ 0) : v'.ref i s l = v.ref i s l := by
  by_cases hn : i = v.ino p
  · subst hn
    exact (ht.place s l hl).resolve_right h0
  · exact ht.ref_eq h hp hi hn s l hl

theorem owned : Owned L v' := by
  have hLp := h.live p hp
  refine h.toOwned.change ht.here.nblocks_eq 0 .self ?_ ?_
  · intro i hi r hr h0
    cases r with
    | self => exact .inl ⟨hi, rfl⟩
    | node s l => exact .inl ⟨hi, ht.ref_back h hp hi hr h0⟩
  · intro i hi r hr h0
    cases r with
    | self =>
      rcases ht.marked i (h.marked i hi .self trivial h0) with hm | ⟨s, l, hl, he, hz, -⟩
      · exact hm
      · exact absurd he (h.ref_ne_ino hLp hi hl (he ▸ hz))
    | node s l =>
      have hr' : v'.blk i (.node s l) = v.blk i (.node s l) := ht.ref_back h hp hi hr h0
      have h1 : v.blk i (.node s l) ≠ 0 := hr' ▸ h0
      rw [hr']
      rcases ht.marked _ (h.marked i hi (.node s l) hr h1) with hm | ⟨s', l', hl, he, -, hz⟩
      · exact hm
      · obtain ⟨rfl, rfl, rfl⟩ := h.ref_inj hi hLp hr hl he.symm h1
        exact absurd hz h0

theorem pruned : Pruned L p v v' := by
  have hLp := h.live p hp
  have hfree {b : UInt32} (hm : v.isset b = true)
      (hout : v.nblocks ≤ b.toNat ∨ v.Meta b) : v'.isset b = true := by
    rcases ht.marked b hm with hm | ⟨s, l, hl, he, hz, -⟩
    · exact hm
    · have hr := h.range _ hLp (.node s l) hl (show v.ref _ s l ≠ 0 from he ▸ hz)
      rw [show v.blk _ (.node s l) = b from he] at hr
      rcases hout with hge | hmeta
      · omega
      · exact absurd hmeta hr.2
  refine ⟨⟨ht.here, ?_, fun i hi => ht.inode_eq h hp hi, fun i hi hn => ht.ref_eq h hp hi hn,
    fun i hi hn fb => ?_, fun i hi => ht.ino_disk h hp hi⟩, ht.place, fun fb h0 => ?_,
    fun b hb => ht.disk b fun he => ?_, ht.map, ht.here.super, ht.here.superdirty⟩
  · refine h.local ht.here hp (fun i hi => ht.ino_disk h hp hi) ht.type (ht.owned h hp) ?_
      (fun b hb hm => hfree hm (.inr hb)) (by rw [ht.dirty]; rintro ⟨⟩)
    intro j hj hb
    by_cases hlt : j < 2 ^ 32
    · have hto : (UInt32.ofNat j).toNat = j := by
        rw [UInt32.toNat_ofNat']
        omega
      have := hfree (b := UInt32.ofNat j) (by rw [Vol.isset, hto]; exact hb) (.inl (by rwa [hto]))
      rwa [Vol.isset, hto] at this
    · rw [ht.tail j (Nat.le_of_not_lt hlt)]
      exact hb
  · apply Vol.sector_congr
    intro s l hf
    have hl := Nat.le_of_eq (fbPath_length hf)
    exact .inl ⟨ht.ref_eq h hp hi hn s l hl,
      fun h0 => ht.block_disk h hp hi hl h0 fun hx => hn hx.1⟩
  · obtain ⟨s, l, hf, hb⟩ := path_of_fileBlock h0
    have hlen := fbPath_length hf
    have hl := Nat.le_of_eq hlen
    rw [hb] at h0
    have hr := ht.ref_back h hp hLp hl h0
    rw [fileBlock_of_path hf, fileBlock_of_path hf]
    refine ⟨hr, Vol.sector_congr fun s' l' hf' => .inl ?_⟩
    rw [hf] at hf'
    cases hf'
    refine ⟨hr, fun h1 => ht.block_disk h hp hLp hl h1 ?_⟩
    intro hx
    obtain ⟨-, rfl, rfl⟩ := hx
    cases hlen
  · by_contra h0
    exact h.ref_not_meta hLp (Nat.zero_le _) (he ▸ h0) (he ▸ hb)

end Trims

end Os161.Sfs

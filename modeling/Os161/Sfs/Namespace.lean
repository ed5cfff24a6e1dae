import Os161.Sfs.Register

/-! # The namespace operations

What each operation of the root directory does to the register of the volume. Names and link
counts stay in balance: a file has as many links as slots name it, and it is there as long as it
has a link or a reference. -/
namespace Os161.Sfs
open Os161.Lib Kern Vol

variable {v v' : Vol} {p q sv d : Ptr} {i c : UInt32} {w w' : World} {k j : Nat} {name : CString}
  {r : Register} {M : Prop}

/-! ## Balance -/

namespace Register

/-- The root directory has a link that no slot accounts for. -/
def ownLinks (i : UInt32) : Nat := if i = sfsRootLocation then 1 else 0

theorem ownLinks_root : ownLinks sfsRootLocation = 1 := rfl

theorem ownLinks_of_ne (h : i ≠ sfsRootLocation) : ownLinks i = 0 := if_neg h

structure Balanced (r : Register) : Prop where
  links : ∀ i, r.live i → r.links i = r.slots.uses i + ownLinks i
  live : ∀ i, r.live i ↔ i = sfsRootLocation ∨ 0 < r.slots.uses i ∨ 0 < r.refs i

/-- Slot `j` names file `i`, and the link is counted. -/
def link (r : Register) (j : Nat) (name : CString) (i : UInt32) : Register :=
  (r.enter (r.slots.put j (some (name, i)))).relink i (r.links i + 1)

def unlink (r : Register) (j : Nat) (i : UInt32) : Register :=
  (r.enter (r.slots.put j none)).relink i (r.links i - 1)

namespace Balanced

theorem take (h : r.Balanced) (hi : r.live i) : (r.take p i).Balanced where
  links := h.links
  live a := by
    show r.live a ↔ _ ∨ _ ∨ 0 < Function.update r.refs i (r.refs i + 1) a
    by_cases ha : a = i
    · rw [ha, Function.update_self]
      exact iff_of_true hi (.inr (.inr (Nat.succ_pos _)))
    · rw [Function.update_of_ne ha]
      exact h.live a

theorem root (h : r.Balanced) : r.live sfsRootLocation := (h.live _).mpr (.inl rfl)

theorem root_links (h : r.Balanced) : r.links sfsRootLocation ≠ 0 := by
  rw [h.links _ h.root, ownLinks_root]
  exact Nat.succ_ne_zero _

/-- A file without links has no name. -/
theorem nameless (h : r.Balanced) (hi : r.live i) (h0 : r.links i = 0) (j : Nat) (n : CString) :
    ¬ r.slots.Binds j n i := by
  intro hj
  have := Slots.uses_pos.mpr ⟨j, n, hj⟩
  rw [h.links i hi] at h0
  omega

theorem drop (h : r.Balanced) (hi : r.live i) (hpos : 0 < r.refs i) : (r.drop p i).Balanced where
  links a ha := h.links a ha.1
  live a := by
    show r.live a ∧ _ ↔ _ ∨ 0 < r.slots.uses a ∨ 0 < Function.update r.refs i (r.refs i - 1) a
    by_cases ha : a = i
    · have hlinks := h.links i hi
      rw [ha, Function.update_self]
      show _ ↔ i = sfsRootLocation ∨ 0 < r.slots.uses i ∨ 0 < r.refs i - 1
      by_cases hroot : i = sfsRootLocation
      · refine iff_of_true ⟨hi, fun hx => ?_⟩ (.inl hroot)
        rw [hroot] at hx
        exact h.root_links hx.2.2
      · rw [ownLinks_of_ne hroot] at hlinks
        simp only [hi, hroot, true_and, false_or]
        omega
    · rw [Function.update_of_ne ha, ← h.live a]
      exact ⟨fun hx => hx.1, fun hx => ⟨hx, fun hy => ha hy.1⟩⟩

theorem write {f : Content} (h : r.Balanced) : (r.write i f).Balanced := ⟨h.links, h.live⟩

theorem reopen (h : r.Balanced) : (r.reopen i k).Balanced := ⟨h.links, h.live⟩

theorem link (h : r.Balanced) (hi : r.live i) (hf : r.slots.Free j) :
    (r.link j name i).Balanced where
  links a ha := by
    show Function.update r.links i (r.links i + 1) a = Slots.uses (r.slots.put j _) a + _
    rw [Slots.uses_put_some hf]
    by_cases hai : a = i
    · rw [hai, Function.update_self, if_pos rfl, h.links i hi]
      omega
    · rw [Function.update_of_ne hai, if_neg (Ne.symm hai), h.links a ha, Nat.add_zero]
  live a := by
    show r.live a ↔ _ ∨ 0 < Slots.uses (r.slots.put j _) a ∨ _
    rw [Slots.uses_put_some hf]
    by_cases hai : a = i
    · rw [hai, if_pos rfl]
      exact iff_of_true hi (.inr (.inl (Nat.succ_pos _)))
    · rw [if_neg (Ne.symm hai), Nat.add_zero]
      exact h.live a

theorem unlink (h : r.Balanced) (hi : r.live i) (hpos : 0 < r.refs i)
    (hb : r.slots.Binds j name i) : (r.unlink j i).Balanced where
  links a ha := by
    show Function.update r.links i (r.links i - 1) a = Slots.uses (r.slots.put j none) a + _
    have hu := Slots.uses_put_none hb a
    by_cases hai : a = i
    · rw [hai] at hu ⊢
      rw [if_pos rfl] at hu
      rw [Function.update_self, h.links i hi]
      omega
    · rw [if_neg (Ne.symm hai)] at hu
      rw [Function.update_of_ne hai, h.links a ha]
      omega
  live a := by
    show r.live a ↔ _ ∨ 0 < Slots.uses (r.slots.put j none) a ∨ _
    have hu := Slots.uses_put_none hb a
    by_cases hai : a = i
    · rw [hai]
      exact iff_of_true hi (.inr (.inr hpos))
    · rw [if_neg (Ne.symm hai), Nat.add_zero] at hu
      rw [hu]
      exact h.live a

theorem not_live (h : r.Balanced) (hc : ¬ r.live c) : r.refs c = 0 ∧ r.slots.uses c = 0 := by
  rw [h.live, not_or, not_or] at hc
  omega

theorem adopt (h : r.Balanced) (hc : ¬ r.live c) : (r.adopt p c).Balanced where
  links a ha := by
    show Function.update r.links c 0 a = r.slots.uses a + _
    by_cases hac : a = c
    · have hroot : c ≠ sfsRootLocation := fun hx => hc (hx ▸ h.root)
      rw [hac, Function.update_self, (h.not_live hc).2, ownLinks_of_ne hroot]
    · rw [Function.update_of_ne hac]
      exact h.links a (ha.resolve_right hac)
  live a := by
    show r.live a ∨ a = c ↔ _ ∨ _ ∨ 0 < Function.update r.refs c 1 a
    by_cases hac : a = c
    · rw [hac, Function.update_self]
      exact iff_of_true (.inr rfl) (.inr (.inr Nat.one_pos))
    · rw [Function.update_of_ne hac, h.live a]
      exact ⟨fun hx => hx.resolve_right hac, .inl⟩

end Balanced

end Register

/-! ## The pieces -/

/-- One reference to the vnode in `p` is not used to keep it open. -/
def Spare (p : Ptr) (w : World) : Prop :=
  (w.st.fs.heap p).vnOpencount < (w.st.fs.heap p).vnRefcount

theorem vol_touch (w : World) (p : Ptr) (f : SfsInode → SfsInode) :
    vol ⟨⟨(w.st.fs.modifyInode p f).modifyVnode p fun n => { n with svDirty := true },
      w.st.bufs⟩, w.env⟩ = (vol w).touch p f := by
  rw [modifyInode_eq, modifyVnode_modifyVnode]
  rfl

namespace Keeps

variable (h : Keeps M r w)
include h

theorem spare_iff (hp : r.handles p = some i) : Spare p w ↔ r.opens i < r.refs i := by
  obtain ⟨href, hopen⟩ := h.counts_of_handle hp
  rw [Spare, href, hopen]

theorem of_vol (hv : vol w' = vol w) (hc : Calm w w') : Keeps M r w' where
  toDescribes := hv ▸ h.toDescribes
  toWorking := h.toWorking.calm hc

theorem wp_fsync {Q : Post machine Unit} (hp : p ∈ (vol w).fs.sfsVnodes)
    (hok : ∀ w', Keeps M r w' → vol w' = (vol w).synced p → Q.ok () w') : (vopFsync p).wp Q w := by
  have hready : Ready r.live p w := ⟨h.core, hp, h.reads, h.writes⟩
  have hloc := local_synced (vol w) p
  obtain ⟨hcore, hsame⟩ := core_synced h.core hp
  have hst := h.stored.front h.core.toGeo (front_synced h.core hp)
  rw [vopFsync]
  refine wp_sfsSyncInode hready fun w' hc hv => hok w' ?_ hv
  rw [← hv] at hloc hcore hsame hst
  exact h.tidy hc hcore hsame hloc.vnodes hloc.ino_eq
    (fun q => ⟨(hloc.counts q).1, (hloc.counts q).2.1⟩) hst

/-- Reading the table of the directory changes nothing. -/
theorem findname {Q : Post machine Findname} (hd : r.handles d = some sfsRootLocation)
    (hok : ∀ f w', Keeps M r w' → vol w' = vol w → Scanned r.slots name r.slots.length f →
      Q.ok f w') : (sfsDirFindname d name).wp Q w := by
  obtain ⟨hready, hdir, hslots⟩ := h.root_dir hd
  refine wp_sfsDirFindname hready hdir (by rw [hslots]; exact h.distinct)
    fun f w' hv hc hs => ?_
  rw [hslots] at hs
  exact hok f w' (h.of_vol hv hc) hv hs

theorem load {Q : Post machine Ptr} (hi : r.live i)
    (hok : ∀ sv w', Keeps M (r.take sv i) w' →
      (r.handles sv = some i ∨ r.handles sv = none ∧ r.refs i = 0) → Q.ok sv w')
    (hmem : ¬ M → ∀ w', Keeps M r w' → Q.err .enomem w') :
    (sfsLoadvnode i sfsTypeInval).wp Q w := by
  refine wp_sfsLoadvnode h.core hi h.reads (fun sv w' ho hc => hok sv w' (h.take ho hc) ?_)
    fun hm k w' hk hc hv => hmem (fun hM => hm (h.mem hM)) w' ?_
  · have := ho.opens h.core.toTable
    rwa [h.handles, h.refs] at this
  · exact h.unmoved hc (hv ▸ core_setBrk h.core hk) (hv ▸ sameFiles_setBrk k)
      (hv ▸ front_setBrk k) (by rw [hv]; rfl) (by rw [hv]; rfl)

/-- `sfs_makeobj` takes a block for the inode of a new file, which is lost if there is no memory for
the vnode. -/
theorem makeobj {Q : Post machine Ptr} (hp : p ∈ (vol w).fs.sfsVnodes)
    (hok : ∀ c w', Fresh (vol w) c → Keeps M (r.adopt (vol w).fs.brk c) w' →
      Q.ok (vol w).fs.brk w')
    (herr : Q.err .enospc w) (hmem : ¬ M → ∀ w', Keeps M r w' → Q.err .enomem w') :
    (sfsMakeobj sfsTypeFile).wp Q w := by
  refine wp_sfsMakeobj ⟨h.core, hp, h.reads, h.writes⟩ (fun c w' hc hcalm hv =>
    hok c w' hc (h.adopt hp hc hcalm hv)) herr fun hm c k w' hc hk hcalm hv =>
      hmem (fun hM => hm (h.mem hM)) w' ?_
  exact h.unmoved hcalm (hv ▸ core_strands h.core hp hc hk) (hv ▸ sameFiles_strands h.core hp hc)
    (hv ▸ front_strands h.core hc) (by rw [hv]; rfl) (by rw [hv]; rfl)

theorem release {Q : Post machine Unit} (hb : r.Balanced) (hp : r.handles p = some i)
    (hs : r.opens i < r.refs i) (hok : ∀ w', Keeps M (r.drop p i) w' → Q.ok () w') :
    (vnodeDecref p).wp Q w := by
  obtain ⟨hready, hpi, hi⟩ := h.file hp
  refine wp_vnodeDecref hready ((h.spare_iff hp).mpr hs) (fun hx hz => hb.root_links ?_)
    fun w' hc hrel => ?_
  · rw [← hx, hpi, ← (h.linkcount_of_handle hp).2, hz]
    rfl
  · rw [hpi] at hrel
    exact hok w' (h.drop hp hrel hc (hb.nameless hi))

theorem dirLink {Q : Post machine Nat} (hd : r.handles d = some sfsRootLocation) (hi : r.live i)
    (hroom : NameFits r.slots name)
    (hok : ∀ j w', LinkedAt r.slots name j →
      Keeps M (r.enter (r.slots.put j (some (name, i)))) w' → Q.ok j w')
    (herr : ∀ e w', LinkFails r.slots name e → Keeps M r w' → Q.err e w') :
    (sfsDirLink d name i).wp Q w := by
  obtain ⟨hready, hdir, hslots⟩ := h.root_dir hd
  refine wp_sfsDirLink hready hdir (by rw [hslots]; exact h.distinct) (h.core.nonzero i hi)
    (by rwa [hslots]) (fun j w' hr hl hs => ?_) fun e w' hr hl hs => ?_
  · rw [hslots] at hl hs
    refine hok j w' hl (h.enter hd hr hs ?_ ?_)
    · exact h.distinct.put_some hl.free (Slots.find_eq_none.mp hl.absent)
    · intro x n a hb
      rw [Slots.binds_put hl.free.le] at hb
      split at hb
      · cases hb
        exact hi
      · exact h.named x n a hb
  · rw [hslots] at hl hs
    exact herr e w' hl (h.enter hd hr hs h.distinct h.named)

theorem dirUnlink {Q : Post machine Unit} (hd : r.handles d = some sfsRootLocation)
    (hb : r.slots.Binds j name i)
    (hok : ∀ w', Keeps M (r.enter (r.slots.put j none)) w' → Q.ok () w') :
    (sfsDirUnlink d j).wp Q w := by
  obtain ⟨hready, hdir, hslots⟩ := h.root_dir hd
  have hb' : ((vol w).slots d).Binds j name i := by rwa [hslots]
  refine wp_sfsDirUnlink hready hdir hb' fun w' hr hs => ?_
  rw [hslots] at hs
  refine hok w' (h.enter hd hr hs (h.distinct.put_none (Nat.le_of_lt hb.lt)) ?_)
  intro x n a hx
  rw [Slots.binds_put (Nat.le_of_lt hb.lt)] at hx
  split at hx
  · cases hx
  · exact h.named x n a hx

/-- The link count of a file is set, and its vnode marked dirty. -/
theorem setLinks {Q : Post machine Unit} {f : UInt16 → UInt16} (hp : r.handles p = some i)
    (hk : ∀ x : UInt16, x.toNat = r.links i → (f x).toNat = k)
    (hok : ∀ w', Keeps M (r.relink i k) w' → Q.ok () w') :
    (do
      Kern.modifyInode p fun n => { n with sfiLinkcount := f n.sfiLinkcount }
      Kern.setDirty p : Kern Unit).wp Q w := by
  have hv := vol_touch w p fun n => { n with sfiLinkcount := f n.sfiLinkcount }
  rw [Prog.wp_bind, wp_modifyInode]
  dsimp only
  rw [wp_setDirty]
  exact hok _ (h.relink hp hv ⟨id, id, id⟩ hk)

theorem setLinks_then {α : Type} {K : Kern α} {Q : Post machine α} {f : UInt16 → UInt16}
    (hp : r.handles p = some i) (hk : ∀ x : UInt16, x.toNat = r.links i → (f x).toNat = k)
    (hok : ∀ w', Keeps M (r.relink i k) w' → K.wp Q w') :
    (do
      Kern.modifyInode p fun n => { n with sfiLinkcount := f n.sfiLinkcount }
      Kern.setDirty p
      K : Kern α).wp Q w := by
  rw [← Prog.bind_assoc, Prog.wp_bind]
  exact h.setLinks hp hk hok

/-- `sfs_lookonce` hands out a reference to the file a name stands for. -/
theorem lookonce {Q : Post machine (Ptr × Nat)} (hd : r.handles d = some sfsRootLocation)
    (hb : r.Balanced)
    (hok : ∀ i sv j w', r.slots.Binds j name i → Keeps M (r.take sv i) w' →
      (r.handles sv = some i ∨ r.handles sv = none ∧ r.refs i = 0) → Q.ok (sv, j) w')
    (hnone : r.slots.find name = none → ∀ w', Keeps M r w' → Q.err .enoent w')
    (hmem : ¬ M → ∀ w', Keeps M r w' → Q.err .enomem w') :
    (sfsLookonce d name).wp Q w := by
  rw [sfsLookonce, Prog.wp_bind]
  refine h.findname hd fun f w₁ h₁ _ hs => ?_
  have hfind := hs.find_eq h.distinct
  dsimp only
  cases hf : f.found with
  | none =>
    rw [hf] at hfind
    dsimp only
    rw [Prog.wp_fail]
    exact hnone hfind w₁ h₁
  | some x =>
    obtain ⟨i, j⟩ := x
    have hbind := (hs.found i j hf).2
    have hlive := h.named j name i hbind
    dsimp only
    rw [Prog.wp_bind]
    refine h₁.load hlive (fun sv w₂ h₂ hopens => ?_) hmem
    have hp : (r.take sv i).handles sv = some i := Function.update_self ..
    have hlinks := (h₂.linkcount_of_handle hp).2
    have hpos : 0 < r.slots.uses i := Slots.uses_pos.mpr ⟨j, name, hbind⟩
    have hne : ¬ (w₂.st.fs.heap sv).svI.sfiLinkcount = 0 := fun h0 => by
      rw [h0, show (r.take sv i).links i = _ from hb.links i hlive] at hlinks
      simp at hlinks
      omega
    dsimp only
    rw [Prog.wp_bind, wp_getVnode]
    dsimp only
    rw [if_neg hne, Prog.wp_pure]
    exact hok i sv j w₂ hbind h₂ hopens

end Keeps

end Os161.Sfs

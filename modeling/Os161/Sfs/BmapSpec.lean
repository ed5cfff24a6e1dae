import Os161.Sfs.BlockIoSpec
import Os161.Sfs.Blocks

/-! # What block mapping does

`sfs_bmap` finds the block of a file block, or adds the missing places on the
way to it. A lookup below a missing pointer block takes blocks that get no
place. -/
namespace Os161.Sfs
open Os161.Lib Kern Vol

variable {L : UInt32 → Prop} {π : Perm} {w : World} {sv : Ptr}

/-! ## State updates -/

theorem modifyVnode_modifyVnode (fs : SfsFs) (p : Ptr) (f g : SfsVnode → SfsVnode) :
    (fs.modifyVnode p f).modifyVnode p g = fs.modifyVnode p fun n => g (f n) := by
  simp only [SfsFs.modifyVnode, SfsFs.setVnode, if_true]
  congr 1
  funext q
  split <;> rfl

theorem modifyInode_eq (fs : SfsFs) (p : Ptr) (f : SfsInode → SfsInode) :
    fs.modifyInode p f = fs.modifyVnode p fun n => { n with svI := f n.svI } := rfl

@[simp] theorem vol_mk (fs : SfsFs) (bufs : Bufs) (d : Device) :
    vol ⟨⟨fs, bufs⟩, d⟩ = ⟨fs, d.disk⟩ := rfl

@[simp] theorem vol_eta (w : World) : Vol.mk w.st.fs w.env.disk = vol w := rfl

/-! ## Allocation -/

theorem Geo.addressable {v : Vol} (h : Geo v) {b : UInt32} (hb : b.toNat < v.nblocks) :
    Addressable b v.fs :=
  ⟨Nat.lt_of_lt_of_le hb h.device, h.offsets⟩

theorem Geo.nbits_mod {v : Vol} (h : Geo v) : v.fs.sfsFreemap.nbits % 8 = 0 := by
  rw [h.nbits]
  simp only [sfsBitmapsize, sfsBlockbits]
  omega

theorem Geo.nbits_lt {v : Vol} (h : Geo v) : v.fs.sfsFreemap.nbits + 7 < 2 ^ 32 := by
  rw [h.nbits]
  simp only [sfsBitmapsize, divRoundUp, sfsBlockbits]
  omega

theorem Geo.le_nbits {v : Vol} (hg : Geo v) : v.nblocks ≤ v.fs.sfsFreemap.nbits := by
  have hle := hg.device
  have hoff := hg.offsets
  rw [hg.nbits, sfsBitmapsize]
  simp only [sfsBlockbits, divRoundUp]
  omega

/-- Every block of the volume is marked. -/
def Full (v : Vol) : Prop := ∀ b, b.toNat < v.nblocks → v.isset b = true

theorem wp_sfsBalloc {Q : Post machine UInt32} (h : Geo (vol w)) (hw : w.env.writeFaults = [])
    (hok : ∀ c w', Fresh (vol w) c → Calm w w' → vol w' = (vol w).alloc c →
      w'.st.bufs = w.st.bufs → Q.ok c w')
    (herr : Full (vol w) → Q.err .enospc w) : sfsBalloc.wp Q w := by
  simp only [sfsBalloc, Prog.wp_bind, wp_getFs]
  have hspec : AllocSpec w.st.fs.sfsFreemap _ := bitmapAlloc_spec h.nbits_mod h.nbits_lt
  cases hr : bitmapAlloc w.st.fs.sfsFreemap with
  | error m => rw [hr] at hspec; cases hspec
  | ok r =>
    rw [hr] at hspec
    cases hspec with
    | full hall =>
      have hbits : (vol w).nblocks ≤ w.st.fs.sfsFreemap.nbits := h.le_nbits
      simpa using herr fun b hb => hall b.toNat (Nat.lt_of_lt_of_le hb hbits)
    | got i hi hc hl =>
      have hlt : i < (vol w).nblocks := by
        by_contra hge
        have := h.tail i (by omega) hi
        change w.st.fs.sfsFreemap.isset i = true at this
        rw [hc] at this
        cases this
      have hto : (UInt32.ofNat i).toNat = i := by
        have : (vol w).nblocks < 2 ^ 32 := UInt32.toNat_lt _
        simp only [UInt32.toNat_ofNat']
        omega
      have hfresh : Fresh (vol w) (UInt32.ofNat i) := by
        refine ⟨?_, ?_⟩
        · rw [Vol.isset, hto]; exact hc
        · rw [hto]; exact hlt
      have hge : ¬ UInt32.ofNat i ≥ w.st.fs.sfsSuper.spNblocks := by
        rw [ge_iff_le, UInt32.le_iff_toNat_le, hto]
        exact Nat.not_le.mpr hlt
      simp only [wp_ofExcept_ok, Prog.wp_bind, wp_modifyFs, if_neg hge, sfsClearblock]
      have ha := h.addressable hfresh.lt
      refine wp_sfsWblock ⟨ha.lt, ha.offsets⟩ hw ?_
      intro w' hw'
      simp only [Prog.wp_pure]
      refine hok _ _ hfresh ⟨hw'.reads, hw'.writes, hw'.mem⟩ ?_ ?_
      · simp only [vol, Vol.alloc, hw'.st, hw'.disk, hto]
      · rw [hw'.st]

/-! ## Pointer blocks -/

/-- The inode pointer an indirection level starts from. -/
def levelSlot (idblevel : Nat) : Slot :=
  if idblevel = 1 then .indirect else if idblevel = 2 then .double else .triple

/-- A failed step has its cause in the world it started from. -/
def Excuse (w : World) (missing : Prop) (e : Errno) : Prop :=
  e = .eio ∧ w.env.readFaults ≠ [] ∨ e = .enospc ∧ missing

theorem wp_loadbuffer_load {idblevel level : Nat} {idblock block : UInt32}
    {Q : Post machine UInt32} (h0 : block ≠ 0) (ha : Addressable block w.st.fs)
    (hok : ∀ w', Calm w w' → vol w' = vol w →
      w'.st.bufs.blockbuf = ((vol w).disk block.toNat).words → Q.ok idblock w')
    (herr : ∀ w', Quiet w w' → w.env.readFaults ≠ [] → Q.err .eio w') :
    (loadbuffer sv idblevel idblock block level).wp Q w := by
  simp only [loadbuffer, if_neg h0, Prog.wp_bind]
  refine wp_sfsRblock ha ?_ herr
  intro w' hw'
  simp only [wp_modifyBufs, Prog.wp_pure]
  refine hok _ ⟨hw'.reads, hw'.writes, hw'.mem⟩ ?_ rfl
  rw [vol_mk, vol_eta, hw'.vol]

theorem wp_loadbuffer_plant {idblevel : Nat} {idblock : UInt32} {Q : Post machine UInt32}
    (hlv : idblevel = 1 ∨ idblevel = 2 ∨ idblevel = 3)
    (h : Geo (vol w)) (hw : w.env.writeFaults = [])
    (hok : ∀ c w', Fresh (vol w) c → Calm w w' →
      vol w' = (vol w).plant sv (levelSlot idblevel) c →
      w'.st.bufs.blockbuf = (fun _ => 0) → Q.ok c w')
    (herr : Q.err .enospc w) : (loadbuffer sv idblevel idblock 0 0).wp Q w := by
  simp only [loadbuffer, if_true, Prog.wp_bind]
  refine wp_sfsBalloc h hw ?_ fun _ => herr
  intro c w' hc hcalm hv _
  simp only [wp_modifyInode, wp_setDirty, wp_modifyBufs, Prog.wp_pure]
  refine hok c _ hc ⟨hcalm.reads, hcalm.writes, hcalm.mem⟩ ?_ rfl
  obtain ⟨hfs, hd⟩ := Vol.mk.inj hv
  simp only [vol, modifyInode_eq, modifyVnode_modifyVnode, hfs, hd]
  rcases hlv with rfl | rfl | rfl <;> rfl

theorem wp_loadbuffer_leak {idblevel : Nat} {idblock : UInt32} {Q : Post machine UInt32}
    (h : Geo (vol w)) (hw : w.env.writeFaults = [])
    (hok : ∀ c w', Fresh (vol w) c → Calm w w' → vol w' = (vol w).leak sv c →
      w'.st.bufs.blockbuf = (fun _ => 0) → Q.ok c w')
    (herr : Full (vol w) → Q.err .enospc w) : (loadbuffer sv idblevel idblock 0 1).wp Q w := by
  simp only [loadbuffer, if_true, Prog.wp_bind, one_ne_zero, if_false]
  refine wp_sfsBalloc h hw ?_ herr
  intro c w' hc hcalm hv _
  simp only [wp_modifyInode, wp_setDirty, wp_modifyBufs, Prog.wp_pure]
  refine hok c _ hc ⟨hcalm.reads, hcalm.writes, hcalm.mem⟩ ?_ rfl
  obtain ⟨hfs, hd⟩ := Vol.mk.inj hv
  simp only [vol, modifyInode_eq, modifyVnode_modifyVnode, hfs, hd]
  rfl

/-- The buffer holds the pointer block at a place of the file in `sv`. -/
structure Cursor (sv : Ptr) (s : Slot) (l : Path) (b : UInt32) (w : World) : Prop where
  eq : b = (vol w).ref ((vol w).ino sv) s l
  inner : l.length < s.depth
  ne_zero : b ≠ 0
  buf : w.st.bufs.blockbuf = ((vol w).disk b.toNat).words

theorem Cursor.ref_snoc {s : Slot} {l : Path} {b : UInt32} (hcur : Cursor sv s l b w)
    (j : Fin 128) : (vol w).ref ((vol w).ino sv) s (l ++ [j]) = w.st.bufs.blockbuf j := by
  rw [Vol.ref_snoc, ← hcur.eq, if_neg hcur.ne_zero, hcur.buf]
  rfl

/-- A subscript in the block `b` that the buffer holds: the entry is handed
back, or a new block is entered and the whole buffer written to `b`. -/
theorem wp_getBlock_entry {b : UInt32} {j : Fin 128} {doalloc : Bool} {Q : Post machine UInt32}
    (h : Geo (vol w)) (hw : w.env.writeFaults = []) (haddr : Addressable b (vol w).fs)
    (hbuf : w.st.bufs.blockbuf = ((vol w).disk b.toNat).words)
    (hfound : (w.st.bufs.blockbuf j = 0 → doalloc = false) → Q.ok (w.st.bufs.blockbuf j) w)
    (hnew : doalloc = true → w.st.bufs.blockbuf j = 0 → ∀ c w', Fresh (vol w) c → Calm w w' →
      vol w' = (vol w).graft sv b j c → Q.ok c w')
    (hfull : doalloc = true → w.st.bufs.blockbuf j = 0 → Q.err .enospc w) :
    (getBlock sv doalloc b j).wp Q w := by
  simp only [getBlock, sfsDbperidb, dif_pos j.isLt, Prog.wp_bind, wp_getKernel, Fin.eta]
  by_cases hz : w.st.bufs.blockbuf j = 0 ∧ doalloc = true
  · obtain ⟨hz, hd⟩ := hz
    simp only [hz, hd, and_self, if_true, Prog.wp_bind]
    rw [Prog.wp_mark]
    refine wp_sfsBalloc h hw ?_ fun _ => hfull hd hz
    intro c w' hc hcalm hv hb
    obtain ⟨hfs, hdisk⟩ := Vol.mk.inj hv
    simp only [wp_modifyInode, wp_modifyBufs]
    rw [Prog.wp_mark]
    refine wp_sfsWblock ⟨?_, ?_⟩ (hcalm.writes hw) ?_
    · simpa [hfs, Vol.alloc, modifyInode_eq, SfsFs.modifyVnode, SfsFs.setVnode] using haddr.lt
    · simpa [hfs, Vol.alloc, modifyInode_eq, SfsFs.modifyVnode, SfsFs.setVnode] using haddr.offsets
    intro w'' hw''
    have hg : vol w'' = (vol w).graft sv b j c := by
      rw [vol, hw''.st, hw''.disk]
      simp only [Vol.graft, Vol.setDisk, Vol.setWord, hfs, hdisk, hb, hbuf, modifyInode_eq]
      rfl
    dsimp only
    rw [Prog.wp_mark]
    simp only [Prog.wp_pure]
    exact hnew hd hz c w'' hc ⟨fun hr => hw''.reads (hcalm.reads hr),
      fun hr => hw''.writes (hcalm.writes hr), fun hr => hw''.mem (hcalm.mem hr)⟩ hg
  · simp only [if_neg hz, Prog.wp_pure]
    refine hfound fun h0 => ?_
    cases hd : doalloc with
    | false => rfl
    | true => exact absurd ⟨h0, hd⟩ hz

theorem wp_getBlock {s : Slot} {l : Path} {b : UInt32} {j : Fin 128} {doalloc : Bool}
    {Q : Post machine UInt32} (h : Core L (vol w)) (hsv : sv ∈ (vol w).fs.sfsVnodes)
    (hw : w.env.writeFaults = []) (hcur : Cursor sv s l b w)
    (ha : doalloc = true → π.alloc)
    (hq : doalloc = true → (vol w).ref ((vol w).ino sv) s (l ++ [j]) = 0 →
      ((vol w).fs.heap sv).svDirty = true ∨ π.quiet)
    (hok : ∀ d w', Calm w w' → Extended π L sv (vol w) (vol w') →
      d = (vol w').ref ((vol w').ino sv) s (l ++ [j]) → (doalloc = true → d ≠ 0) →
      (doalloc = false → w' = w) → Q.ok d w')
    (herr : (vol w).ref ((vol w).ino sv) s (l ++ [j]) = 0 → doalloc = true → Q.err .enospc w) :
    (getBlock sv doalloc b j).wp Q w := by
  have href := hcur.ref_snoc j
  have hLp := h.live sv hsv
  have h0 : (vol w).ref ((vol w).ino sv) s l ≠ 0 := hcur.eq ▸ hcur.ne_zero
  have hbr := h.range _ hLp (.node s l) (Nat.le_of_lt hcur.inner) h0
  change ((vol w).ref ((vol w).ino sv) s l).toNat < _ ∧ _ at hbr
  rw [← hcur.eq] at hbr
  refine wp_getBlock_entry h.toGeo hw (h.toGeo.addressable hbr.1) hcur.buf ?_ ?_ ?_
  · intro hfound
    refine hok _ _ (.refl w) (.refl π h sv) href.symm ?_ fun _ => rfl
    intro hd hz
    rw [hfound hz] at hd
    cases hd
  · intro hd hz c w' hc hcalm hg
    have hword : ((vol w).disk ((vol w).ref ((vol w).ino sv) s l).toNat).word j = 0 := by
      rw [← hcur.eq, ← Sector.words_apply, ← hcur.buf, hz]
    have hext := Extended.graft (π := π) h hsv hc (ha hd) (hq hd (href.trans hz)) hcur.inner h0
      hword
    rw [← hcur.eq, ← hg] at hext
    refine hok c w' hcalm hext ?_ (fun _ => hc.ne_zero h.toGeo) ?_
    · have := graft_ref h hsv hc hcur.inner h0 hword hLp s (l ++ [j])
        (by rw [List.length_append]; exact hcur.inner)
      rw [if_pos ⟨rfl, rfl, rfl⟩, ← hcur.eq, ← hg] at this
      rw [hext.here.ino_eq, this]
    · intro hf
      rw [hd] at hf
      cases hf
  · exact fun hd hz => herr (href.trans hz) hd

/-- The file in `p` keeps its places. -/
def SamePlaces (p : Ptr) (v v' : Vol) : Prop :=
  ∀ s l, l.length ≤ s.depth → v'.ref (v.ino p) s l = v.ref (v.ino p) s l

/-- Going down one level. Below a missing block a lookup takes a block without
a place and goes on in an empty buffer. -/
theorem wp_descend {s : Slot} {l : Path} {b : UInt32} {j : Fin 128} {doalloc : Bool} {lv : Nat}
    {K : UInt32 → Kern UInt32} {Q : Post machine UInt32} (h : Core L (vol w))
    (hsv : sv ∈ (vol w).fs.sfsVnodes) (hw : w.env.writeFaults = []) (hcur : Cursor sv s l b w)
    (hlen : l.length + 1 < s.depth)
    (ha : doalloc = true → π.alloc)
    (hq : doalloc = true → (vol w).ref ((vol w).ino sv) s (l ++ [j]) = 0 →
      ((vol w).fs.heap sv).svDirty = true ∨ π.quiet)
    (hk : doalloc = false → (vol w).ref ((vol w).ino sv) s (l ++ [j]) = 0 → π.leak)
    (hlive : ∀ b' w', Calm w w' → Extended π L sv (vol w) (vol w') →
      Cursor sv s (l ++ [j]) b' w' → (K b').wp Q w')
    (hdead : ∀ b' w', doalloc = false → (vol w).ref ((vol w).ino sv) s (l ++ [j]) = 0 →
      Calm w w' → Extended π L sv (vol w) (vol w') → SamePlaces sv (vol w) (vol w') →
      w'.st.bufs.blockbuf = (fun _ => 0) → (K b').wp Q w')
    (herr : ∀ e w', Calm w w' → Extended π L sv (vol w) (vol w') →
      Excuse w ((vol w).ref ((vol w).ino sv) s (l ++ [j]) = 0) e → Q.err e w') :
    (getBlock sv doalloc b j >>= fun block => descend sv lv block >>= K).wp Q w := by
  rw [Prog.wp_bind]
  refine wp_getBlock (π := π) h hsv hw hcur ha hq ?_ ?_
  · intro d w' hcalm hext hd hne hsame
    have hsv' : sv ∈ (vol w').fs.sfsVnodes := by rw [hext.here.vnodes]; exact hsv
    simp only [Prog.wp_bind, descend, wp_modifyBufs]
    by_cases hz : d = 0
    · -- only a lookup finds nothing
      have hda : doalloc = false := by
        cases hb : doalloc with
        | false => rfl
        | true => exact absurd hz (hne hb)
      obtain rfl := hsame hda
      have hmiss : (vol w').ref ((vol w').ino sv) s (l ++ [j]) = 0 := by rw [← hd, hz]
      subst hz
      refine wp_loadbuffer_leak (by simpa using h.toGeo) hw ?_ ?_
      · intro c w'' hc hcalm' hv hb
        simp only [vol_mk, vol_eta] at hc hv
        refine hdead c w'' hda hmiss ⟨hcalm'.reads, hcalm'.writes, hcalm'.mem⟩ ?_ ?_ hb
        · rw [hv]; exact .leak h hsv hc (hk hda hmiss)
        · rw [hv]; exact leak_ref h hsv hc (h.live sv hsv)
      · refine fun _ => herr _ _ ⟨id, id, id⟩ ?_ (.inr ⟨rfl, hmiss⟩)
        simpa using .refl π h sv
    · have hr := (hext.core.range _ (hext.core.live sv hsv') (.node s (l ++ [j]))
        (by simpa [Node.Valid] using Nat.le_of_lt hlen) (by rw [Vol.blk, ← hd]; exact hz)).1
      rw [Vol.blk, ← hd] at hr
      have haddr := hext.core.toGeo.addressable hr
      refine wp_loadbuffer_load hz ⟨haddr.lt, haddr.offsets⟩ ?_ ?_
      · intro w'' hcalm' hv hb
        simp only [vol_mk, vol_eta] at hv hb
        refine hlive d w'' (hcalm.trans ⟨hcalm'.reads, hcalm'.writes, hcalm'.mem⟩) ?_
          ⟨?_, ?_, hz, ?_⟩
        · rw [hv]; exact hext
        · rw [hv, hd]
        · simpa using hlen
        · rw [hv, hb]
      · intro w'' hquiet hreads
        have hv := hquiet.vol
        simp only [vol_mk, vol_eta] at hv
        refine herr _ _ (hcalm.trans ⟨hquiet.reads, hquiet.writes, hquiet.mem⟩) ?_ (.inl ⟨rfl, ?_⟩)
        · rw [hv]; exact hext
        · intro h0
          exact hreads (hcalm.reads h0)
  · intro hz hda
    exact herr _ _ (.refl w) (.refl π h sv) (.inr ⟨rfl, hz⟩)

/-- A lookup in an empty buffer finds nothing. -/
theorem wp_getBlock_empty {b : UInt32} {n : Nat} {Q : Post machine UInt32}
    (hbuf : w.st.bufs.blockbuf = fun _ => 0) (hok : n < 128 → Q.ok 0 w)
    (hstop : ¬ n < 128 → Q.stopped (.blockbufIndex n) w) :
    (getBlock sv false b n).wp Q w := by
  unfold getBlock
  split
  · next hn => simpa [hbuf] using hok hn
  · next hn => simpa using hstop hn

theorem wp_getBlock_outside {b : UInt32} {n : Nat} {doalloc : Bool} {Q : Post machine UInt32}
    (hn : ¬ n < 128) (hstop : Q.stopped (.blockbufIndex n) w) :
    (getBlock sv doalloc b n).wp Q w := by
  unfold getBlock
  rw [dif_neg hn]
  simpa using hstop

/-- Going down one level in an empty buffer. -/
theorem wp_descend_empty {b : UInt32} {j : Fin 128} {lv : Nat} {K : UInt32 → Kern UInt32}
    {Q : Post machine UInt32} (h : Core L (vol w)) (hsv : sv ∈ (vol w).fs.sfsVnodes)
    (hw : w.env.writeFaults = []) (hbuf : w.st.bufs.blockbuf = fun _ => 0) (hk : π.leak)
    (hdead : ∀ b' w', Calm w w' → Extended π L sv (vol w) (vol w') →
      SamePlaces sv (vol w) (vol w') → w'.st.bufs.blockbuf = (fun _ => 0) → (K b').wp Q w')
    (herr : ∀ w', Calm w w' → Extended π L sv (vol w) (vol w') → Q.err .enospc w') :
    (getBlock sv false b j >>= fun block => descend sv lv block >>= K).wp Q w := by
  rw [Prog.wp_bind]
  refine wp_getBlock_empty hbuf ?_ fun hn => absurd j.isLt hn
  intro _
  simp only [Prog.wp_bind, descend, wp_modifyBufs]
  refine wp_loadbuffer_leak (by simpa using h.toGeo) hw ?_ ?_
  · intro c w' hc hcalm hv hb
    simp only [vol_mk, vol_eta] at hc hv
    refine hdead c w' ⟨hcalm.reads, hcalm.writes, hcalm.mem⟩ ?_ ?_ hb
    · rw [hv]; exact .leak h hsv hc hk
    · rw [hv]; exact leak_ref h hsv hc (h.live sv hsv)
  · refine fun _ => herr _ ⟨id, id, id⟩ ?_
    simpa using .refl π h sv

theorem Excuse.mono {w' : World} {m m' : Prop} {e : Errno} (h : Excuse w' m e) (hc : Calm w w')
    (hm : m → m') : Excuse w m' e := by
  rcases h with ⟨rfl, hr⟩ | ⟨rfl, hx⟩
  · exact .inl ⟨rfl, fun h0 => hr (hc.reads h0)⟩
  · exact .inr ⟨rfl, hm hx⟩

/-- A place that is missing later was missing before. -/
theorem Grown.missing {v v' : Vol} {p : Ptr} (h : Grown L p v v') {s : Slot} {l : Path}
    (hl : l.length ≤ s.depth) (h0 : v'.ref (v.ino p) s l = 0) : v.ref (v.ino p) s l = 0 := by
  by_contra hne
  exact hne ((h.keep s l hl hne).symm.trans h0)

/-! ## The walk -/

section Walk

variable {s : Slot} {b : UInt32} {doalloc : Bool} {Q : Post machine UInt32}

/-- What the walk over the path `l` needs, and what it does. -/
structure WalkSpec (π : Perm) (L : UInt32 → Prop) (sv : Ptr) (w : World) (doalloc : Bool)
    (s : Slot) (l : Path) (Q : Post machine UInt32) : Prop where
  core : Core L (vol w)
  vnode : sv ∈ (vol w).fs.sfsVnodes
  writes : w.env.writeFaults = []
  len : l.length = s.depth
  alloc : doalloc = true → π.alloc
  quiet : doalloc = true → (vol w).ref ((vol w).ino sv) s l = 0 →
    ((vol w).fs.heap sv).svDirty = true ∨ π.quiet
  leak : doalloc = false → (vol w).ref ((vol w).ino sv) s l.dropLast = 0 → π.leak
  ok : ∀ d w', Calm w w' → Extended π L sv (vol w) (vol w') →
    d = (vol w').ref ((vol w').ino sv) s l → (doalloc = true → d ≠ 0) → Q.ok d w'
  err : ∀ e w', Calm w w' → Extended π L sv (vol w) (vol w') →
    Excuse w ((vol w).ref ((vol w).ino sv) s l = 0 ∧
      (doalloc = true ∨ (vol w).ref ((vol w).ino sv) s l.dropLast = 0)) e → Q.err e w'

/-- The same walk from a later world. -/
theorem WalkSpec.later {l : Path} {w' : World} (h : WalkSpec π L sv w doalloc s l Q)
    (hc : Calm w w') (hx : Extended π L sv (vol w) (vol w')) :
    WalkSpec π L sv w' doalloc s l Q := by
  have hmiss {m : Path} (hm : m.length ≤ s.depth)
      (h0 : (vol w').ref ((vol w').ino sv) s m = 0) : (vol w).ref ((vol w).ino sv) s m = 0 := by
    rw [hx.here.ino_eq] at h0
    exact hx.missing hm h0
  have hl := Nat.le_of_eq h.len
  have hd : l.dropLast.length ≤ s.depth := by
    rw [List.length_dropLast]
    omega
  refine ⟨hx.core, by rw [hx.here.vnodes]; exact h.vnode, hc.writes h.writes, h.len, h.alloc,
    ?_, ?_, ?_, ?_⟩
  · exact fun ha h0 => (h.quiet ha (hmiss hl h0)).imp_left hx.dirty
  · exact fun ha h0 => h.leak ha (hmiss hd h0)
  · exact fun d w'' hc' hx' => h.ok d w'' (hc.trans hc') (hx.trans hx')
  · exact fun e w'' hc' hx' he => h.err e w'' (hc.trans hc') (hx.trans hx')
      (he.mono hc fun hm => ⟨hmiss hl hm.1, hm.2.imp_right (hmiss hd)⟩)

theorem wp_walk_last {l : Path} {j : Fin 128} (h : WalkSpec π L sv w doalloc s (l ++ [j]) Q)
    (hcur : Cursor sv s l b w) : (getBlock sv doalloc b j).wp Q w := by
  refine wp_getBlock h.core h.vnode h.writes hcur h.alloc h.quiet ?_ ?_
  · exact fun d w' hc hx hd hne _ => h.ok d w' hc hx hd hne
  · exact fun h0 ha => h.err _ _ (.refl w) (.refl π h.core sv) (.inr ⟨rfl, h0, .inl ha⟩)

/-- One level down on the way to `l ++ j :: m`. -/
theorem wp_walk_down {l m : Path} {j : Fin 128} {lv : Nat} {K : UInt32 → Kern UInt32}
    (h : WalkSpec π L sv w doalloc s (l ++ j :: m) Q) (hm : m ≠ []) (hcur : Cursor sv s l b w)
    (hlive : ∀ b' w', Calm w w' → Extended π L sv (vol w) (vol w') →
      Cursor sv s (l ++ [j]) b' w' → (K b').wp Q w')
    (hdead : ∀ b' w', doalloc = false → π.leak → Calm w w' →
      Extended π L sv (vol w) (vol w') → (vol w').ref ((vol w').ino sv) s (l ++ j :: m) = 0 →
      (vol w').ref ((vol w').ino sv) s (l ++ j :: m).dropLast = 0 →
      w'.st.bufs.blockbuf = (fun _ => 0) → (K b').wp Q w') :
    (getBlock sv doalloc b j >>= fun block => descend sv lv block >>= K).wp Q w := by
  have hlen := h.len
  have hmpos := List.length_pos_of_ne_nil hm
  rw [List.length_append, List.length_cons] at hlen
  have hsplit : l ++ j :: m = (l ++ [j]) ++ m := by simp
  have hdrop : (l ++ j :: m).dropLast = (l ++ [j]) ++ m.dropLast := by
    rw [hsplit, List.dropLast_append_of_ne_nil hm]
  have hfull {v : Vol} {i : UInt32} (h0 : v.ref i s (l ++ [j]) = 0) :
      v.ref i s (l ++ j :: m) = 0 ∧ v.ref i s (l ++ j :: m).dropLast = 0 := by
    rw [hsplit, List.dropLast_append_of_ne_nil hm]
    exact ⟨Forest.at_append_of_zero h0 m, Forest.at_append_of_zero h0 _⟩
  refine wp_descend h.core h.vnode h.writes hcur (by omega) h.alloc ?_ ?_ hlive ?_ ?_
  · exact fun ha h0 => h.quiet ha (hfull h0).1
  · exact fun ha h0 => h.leak ha (hfull h0).2
  · intro b' w' ha h0 hc hx hsame hb
    have hlen' := Nat.le_of_eq h.len
    refine hdead b' w' ha (h.leak ha (hfull h0).2) hc hx ?_ ?_ hb
    · rw [hx.here.ino_eq, hsame _ _ hlen', (hfull h0).1]
    · rw [hx.here.ino_eq, hsame _ _ (by rw [List.length_dropLast]; omega), (hfull h0).2]
  · exact fun e w' hc hx he => h.err e w' hc hx (he.mono (.refl w) fun h0 => 
      ⟨(hfull h0).1, .inr (hfull h0).2⟩)

theorem wp_bmapWalk_double {f : Nat} (hf : f < 128 * 128)
    (h : WalkSpec π L sv w doalloc .double [Fin.ofNat 128 (f / 128), Fin.ofNat 128 f] Q)
    (hcur : Cursor sv .double [] b w) : (bmapWalk sv doalloc 2 b f).wp Q w := by
  have hj : f / 128 = (Fin.ofNat 128 (f / 128) : Fin 128).val := by
    simp only [Fin.ofNat]
    omega
  simp only [bmapWalk, sfsDbperidb, OfNat.ofNat_ne_one, if_false, if_true]
  rw [hj]
  refine wp_walk_down (l := []) h (by simp) hcur ?_ ?_
  · intro b' w' hc hx hcur'
    exact wp_walk_last (l := [_]) (h.later hc hx) hcur'
  · intro b' w' ha hk hc hx h0 _ hb
    obtain rfl := ha
    refine wp_getBlock_empty hb ?_ fun hn => absurd (Nat.mod_lt _ (by decide)) hn
    intro _
    exact (h.later hc hx).ok 0 w' (.refl w') (.refl π hx.core sv) h0.symm (by simp)

theorem wp_bmapWalk_triple {f : Nat} (hf : f < 128 * 128)
    (h : WalkSpec π L sv w doalloc .triple [0, Fin.ofNat 128 (f / 128), Fin.ofNat 128 f] Q)
    (hcur : Cursor sv .triple [] b w) : (bmapWalk sv doalloc 3 b f).wp Q w := by
  have h0 : f / (128 * 128) = (0 : Fin 128).val := by simpa using hf
  have hj : f / 128 = (Fin.ofNat 128 (f / 128) : Fin 128).val := by
    simp only [Fin.ofNat]
    omega
  simp only [bmapWalk, sfsDbperidb, OfNat.ofNat_ne_one, if_false, Nat.reduceEqDiff]
  rw [h0, hj]
  have hnil : ([Fin.ofNat 128 (f / 128), Fin.ofNat 128 f] : Path) ≠ [] := by simp
  refine wp_walk_down (l := []) h hnil hcur ?_ ?_
  · intro b' w' hc hx hcur'
    refine wp_walk_down (l := [_]) (h.later hc hx) (by simp) hcur' ?_ ?_
    · intro b'' w'' hc' hx' hcur''
      exact wp_walk_last (l := [_, _]) ((h.later hc hx).later hc' hx') hcur''
    · intro b'' w'' ha hk hc' hx' h0 _ hb
      obtain rfl := ha
      refine wp_getBlock_empty hb ?_ fun hn => absurd (Nat.mod_lt _ (by decide)) hn
      intro _
      exact ((h.later hc hx).later hc' hx').ok 0 w'' (.refl w'') (.refl π hx'.core sv)
        h0.symm (by simp)
  · intro b' w' ha hk hc hx h0 hd0 hb
    obtain rfl := ha
    have hl := h.later hc hx
    refine wp_descend_empty hl.core hl.vnode hl.writes hb hk ?_ ?_
    · intro b'' w'' hc' hx' hsame hb'
      refine wp_getBlock_empty hb' ?_ fun hn => absurd (Nat.mod_lt _ (by decide)) hn
      intro _
      refine (hl.later hc' hx').ok 0 w'' (.refl w'') (.refl π hx'.core sv) ?_ (by simp)
      rw [hx'.here.ino_eq, hsame _ _ (Nat.le_of_eq h.len)]
      exact h0.symm
    · intro w'' hc' hx'
      exact hl.err _ w'' hc' hx' (.inr ⟨rfl, h0, .inr hd0⟩)

/-- Beyond the range its subscripts cover the walk ends outside its buffer. -/
theorem wp_bmapWalk_outside {f : Nat} (hf : ¬ f < 128 * 128) (h : Core L (vol w))
    (hsv : sv ∈ (vol w).fs.sfsVnodes) (hw : w.env.writeFaults = [])
    (hcur : Cursor sv .triple [] b w) (ha : doalloc = true → π.alloc)
    (hq : doalloc = true → ((vol w).fs.heap sv).svDirty = true ∨ π.quiet)
    (hk : doalloc = false → π.leak)
    (herr : ∀ e w', Calm w w' → Extended π L sv (vol w) (vol w') → Excuse w True e → Q.err e w')
    (hstop : ∀ n w', Q.stopped (.blockbufIndex n) w') : (bmapWalk sv doalloc 3 b f).wp Q w := by
  simp only [bmapWalk, sfsDbperidb, OfNat.ofNat_ne_one, if_false, Nat.reduceEqDiff]
  by_cases h0 : f / (128 * 128) < 128
  · have hj : f / (128 * 128) = (⟨_, h0⟩ : Fin 128).val := rfl
    rw [hj]
    refine wp_descend h hsv hw hcur (by simp [Slot.depth]) ha (fun hd _ => hq hd)
      (fun hd _ => hk hd) ?_ ?_ ?_
    · intro b' w' _ _ _
      rw [Prog.wp_bind]
      exact wp_getBlock_outside (by omega) (hstop _ _)
    · intro b' w' _ _ _ _ _ _
      rw [Prog.wp_bind]
      exact wp_getBlock_outside (by omega) (hstop _ _)
    · exact fun e w' hc hx he => herr e w' hc hx (he.mono (.refl w) fun _ => trivial)
  · rw [Prog.wp_bind]
    exact wp_getBlock_outside h0 (hstop _ _)

end Walk

/-! ## The whole of `sfs_bmap` -/

/-- The inode pointer a file block is reached through. -/
def fbSlot (fb : Nat) : Slot :=
  if h : fb < 15 then .direct ⟨fb, h⟩
  else if fb < 15 + 128 then .indirect
  else if fb < doubleLimit then .double
  else .triple

/-- A lookup of this block meets a missing pointer block below the inode. -/
def HoleRead (v : Vol) (i : UInt32) (fb : Nat) : Prop :=
  match fbPath fb with
  | some (s, l) => v.ref i s [] ≠ 0 ∧ v.ref i s l.dropLast = 0
  | none => fb < doubleLimit + 128 * 128 * 128 ∧ v.ref i .triple [] ≠ 0

/-- Mapping this block changes a pointer block and leaves the vnode clean. -/
def QuietHole (v : Vol) (p : Ptr) (fb : Nat) : Prop :=
  (v.fs.heap p).svDirty = false ∧ 15 ≤ fb ∧ fb < doubleLimit + 128 * 128 * 128 ∧
    v.ref (v.ino p) (fbSlot fb) [] ≠ 0 ∧ v.fileBlock (v.ino p) fb = 0

theorem wp_bmapReturn {fb n : Nat} {d : UInt32} {Q : Post machine UInt32} (h : Core L (vol w))
    (hsv : sv ∈ (vol w).fs.sfsVnodes) (hd : d = (vol w).fileBlock ((vol w).ino sv) fb)
    (hok : Q.ok d w) : (bmapReturn sv n d).wp Q w := by
  simp only [bmapReturn, Prog.wp_bind, wp_getVnode]
  by_cases h0 : d = 0
  · simpa [h0] using (h0 ▸ hok : Q.ok 0 w)
  · have h0' := hd ▸ h0
    obtain ⟨s, l, hf, hb⟩ := path_of_fileBlock h0'
    have hl := Nat.le_of_eq (fbPath_length hf)
    rw [hb] at hd h0'
    have hLp := h.live sv hsv
    have hm := h.marked _ hLp (.node s l) hl h0'
    have hr := (h.range _ hLp (.node s l) hl h0').1
    rw [Vol.blk, ← hd] at hm hr
    have hlt : ¬ d ≥ w.st.fs.sfsSuper.spNblocks := by
      rw [ge_iff_le, UInt32.le_iff_toNat_le]
      exact Nat.not_le.mpr hr
    have hset : bitmapIsset w.st.fs.sfsFreemap d.toNat = true := by
      rw [bitmapIsset_eq]
      exact hm
    simpa [h0, sfsBused, hlt, hset] using hok

theorem fbSlot_of_path {fb : Nat} {s : Slot} {l : Path} (h : fbPath fb = some (s, l)) :
    fbSlot fb = s := by
  unfold fbPath at h
  unfold fbSlot
  dsimp only [doubleLimit] at h ⊢
  repeat' split at h
  all_goals first
    | (obtain ⟨rfl, -⟩ := Prod.mk.inj (Option.some.inj h)) | cases h
  · rw [dif_pos ‹_›]
  · rw [dif_neg ‹_›, if_pos (by omega)]
  · rw [dif_neg ‹_›, if_neg (by omega), if_pos (by omega)]
  · rw [dif_neg ‹_›, if_neg (by omega), if_neg (by omega)]

/-- How `sfs_bmap` fails. -/
def BmapFails (w : World) (sv : Ptr) (fb : Nat) (doalloc : Bool) (e : Errno) : Prop :=
  Excuse w ((vol w).fileBlock ((vol w).ino sv) fb = 0 ∧
    (doalloc = true ∨ HoleRead (vol w) ((vol w).ino sv) fb)) e ∨
  e = .einval ∧ doubleLimit + 128 * 128 * 128 ≤ fb

/-- What `sfs_bmap` needs and does. -/
structure BmapSpec (π : Perm) (L : UInt32 → Prop) (sv : Ptr) (w : World) (fb : Nat)
    (doalloc : Bool) (Q : Post machine UInt32) : Prop where
  core : Core L (vol w)
  vnode : sv ∈ (vol w).fs.sfsVnodes
  writes : w.env.writeFaults = []
  alloc : doalloc = true → π.alloc
  quiet : doalloc = true → QuietHole (vol w) sv fb → π.quiet
  leak : doalloc = false → HoleRead (vol w) ((vol w).ino sv) fb → π.leak
  ok : ∀ d w', fb < doubleLimit + 128 * 128 * 128 → Calm w w' →
    Extended π L sv (vol w) (vol w') → d = (vol w').fileBlock ((vol w').ino sv) fb →
    (doalloc = true → d ≠ 0) → Q.ok d w'
  err : ∀ e w', Calm w w' → Extended π L sv (vol w) (vol w') →
    BmapFails w sv fb doalloc e → Q.err e w'
  stopped : ∀ n w', bufferLimit ≤ fb → Q.stopped (.blockbufIndex n) w'

section Bmap

variable {fb : Nat} {doalloc : Bool} {Q : Post machine UInt32}

/-- Loading the block an inode pointer names, or adding it. -/
theorem wp_loadRoot {lv : Nat} {K : UInt32 → Kern UInt32}
    (h : BmapSpec π L sv w fb doalloc Q) (hlv : lv = 1 ∨ lv = 2 ∨ lv = 3)
    (hslot : fbSlot fb = levelSlot lv) {b : UInt32}
    (hb : b = (vol w).ref ((vol w).ino sv) (levelSlot lv) []) (h0 : b = 0 → doalloc = true)
    (hlive : ∀ b' w', Calm w w' → Extended π L sv (vol w) (vol w') →
      Cursor sv (levelSlot lv) [] b' w' →
      ((vol w').fs.heap sv).svDirty = true ∨ vol w' = vol w ∧ b ≠ 0 → (K b').wp Q w') :
    (loadbuffer sv lv b b 0 >>= K).wp Q w := by
  have hLp := h.core.live sv h.vnode
  have hdepth : 0 < (levelSlot lv).depth := by rcases hlv with rfl | rfl | rfl <;> decide
  rw [Prog.wp_bind]
  by_cases hz : b = 0
  · have hroot : ((vol w).fs.heap sv).svI.root (levelSlot lv) = 0 := by
      rw [← h.core.inode_eq h.vnode, ← ref_nil, ← hb, hz]
    have hda := h0 hz
    rw [hz]
    refine wp_loadbuffer_plant hlv h.core.toGeo h.writes ?_ ?_
    · intro c w' hc hcalm hv hbuf
      have hx := Extended.plant h.core h.vnode hc (h.alloc hda) hroot
      have href := plant_ref h.core h.vnode hc hroot hLp (levelSlot lv) [] (Nat.zero_le _)
      rw [if_pos ⟨rfl, rfl, rfl⟩] at href
      rw [← hv] at hx href
      refine hlive c w' hcalm hx ⟨?_, hdepth, hc.ne_zero h.core.toGeo, ?_⟩ (.inl ?_)
      · rw [hx.here.ino_eq, href]
      · rw [hv, hbuf]
        simp [Vol.plant, disk_alloc]
      · rw [hv]
        simp [Vol.plant]
    · refine h.err _ _ (.refl w) (.refl π h.core sv) (.inl (.inr ⟨rfl, ?_, .inl hda⟩))
      cases hf : fbPath fb with
      | none => exact fileBlock_of_none hf _ _
      | some k =>
        rw [fileBlock_of_path hf]
        have hk : k.1 = levelSlot lv := (fbSlot_of_path hf).symm.trans hslot
        rw [hk]
        exact Forest.at_append_of_zero (p := []) (hb.symm.trans hz) k.2
  · have hr := (h.core.range _ hLp (.node (levelSlot lv) []) (Nat.zero_le _)
      (by rw [Vol.blk, ← hb]; exact hz)).1
    rw [Vol.blk, ← hb] at hr
    refine wp_loadbuffer_load hz (h.core.toGeo.addressable hr) ?_ ?_
    · intro w' hcalm hv hbuf
      refine hlive b w' hcalm (hv ▸ .refl π h.core sv) ⟨?_, hdepth, hz, ?_⟩ (.inr ⟨hv, hz⟩)
      · rw [hv, hb]
      · rw [hbuf, hv]
    · intro w' hq hreads
      refine h.err _ _ hq.toCalm ?_ (.inl (.inl ⟨rfl, hreads⟩))
      rw [hq.vol]
      exact .refl π h.core sv

/-- `sfs_bmap` from the level it selects, for a block its subscripts cover. -/
theorem wp_bmapLevel {lv f n : Nat} {l : Path} (h : BmapSpec π L sv w fb doalloc Q)
    (hlv : lv = 1 ∨ lv = 2 ∨ lv = 3) (hfb : 15 ≤ fb) (hpath : fbPath fb = some (levelSlot lv, l))
    (hwalk : ∀ {Q b w'}, WalkSpec π L sv w' doalloc (levelSlot lv) l Q →
      Cursor sv (levelSlot lv) [] b w' → (bmapWalk sv doalloc lv b f).wp Q w') {b : UInt32}
    (hb : b = (vol w).ref ((vol w).ino sv) (levelSlot lv) []) (h0 : b = 0 → doalloc = true) :
    (loadbuffer sv lv b b 0 >>= fun idblock => bmapWalk sv doalloc lv idblock f >>=
      bmapReturn sv n).wp Q w := by
  refine wp_loadRoot h hlv (fbSlot_of_path hpath) hb h0 ?_
  intro b' w' hc hx hcur hor
  rw [Prog.wp_bind]
  have hlen := fbPath_length hpath
  have hsv' : sv ∈ (vol w').fs.sfsVnodes := by rw [hx.here.vnodes]; exact h.vnode
  refine hwalk ⟨hx.core, hsv', hc.writes h.writes, hlen, h.alloc, ?_, ?_, ?_, ?_⟩ hcur
  · intro hda hmiss
    rcases hor with hd | ⟨hv, hbz⟩
    · exact .inl hd
    · cases hd : ((vol w').fs.heap sv).svDirty with
      | true => exact .inl rfl
      | false =>
        refine .inr (h.quiet hda ⟨hv ▸ hd, hfb, ?_, ?_, ?_⟩)
        · have := fbPath_lt hpath
          simp only [bufferLimit, doubleLimit] at this ⊢
          omega
        · rw [fbSlot_of_path hpath, ← hb]
          exact hbz
        · rw [fileBlock_of_path hpath, ← hv]
          exact hmiss
  · intro hda hmiss
    refine h.leak hda ?_
    rw [hx.here.ino_eq] at hmiss
    simp only [HoleRead, hpath]
    refine ⟨?_, hx.missing (by rw [List.length_dropLast]; omega) hmiss⟩
    rw [← hb]
    intro hz
    rw [h0 hz] at hda
    cases hda
  · intro d w'' hc' hx' hd hne
    have hxx := hx.trans hx'
    rw [← fileBlock_of_path hpath] at hd
    refine wp_bmapReturn hx'.core (by rw [hxx.here.vnodes]; exact h.vnode) hd ?_
    refine h.ok d w'' ?_ (hc.trans hc') hxx hd hne
    have := fbPath_lt hpath
    simp only [bufferLimit, doubleLimit] at this ⊢
    omega
  · intro e w'' hc' hx' he
    refine h.err e w'' (hc.trans hc') (hx.trans hx') (.inl (he.mono hc ?_))
    rw [hx.here.ino_eq]
    intro hy
    obtain ⟨h1, h2⟩ := hy
    rw [fileBlock_of_path hpath]
    refine ⟨hx.missing (Nat.le_of_eq hlen) h1, ?_⟩
    cases hda : doalloc with
    | true => exact .inl rfl
    | false =>
      refine .inr ?_
      simp only [HoleRead, hpath]
      have h2' := h2.resolve_left (by simp [hda])
      refine ⟨?_, hx.missing (by rw [List.length_dropLast]; omega) h2'⟩
      rw [← hb]
      intro hz
      rw [h0 hz] at hda
      cases hda

/-- The triple indirect range beyond what the subscripts cover. -/
theorem wp_bmapLevel_outside {f n : Nat} (h : BmapSpec π L sv w fb doalloc Q)
    (hfb : bufferLimit ≤ fb) (hlt : fb < doubleLimit + 128 * 128 * 128) (hf : ¬ f < 128 * 128)
    {b : UInt32} (hb : b = (vol w).ref ((vol w).ino sv) .triple []) (h0 : b = 0 → doalloc = true) :
    (loadbuffer sv 3 b b 0 >>= fun idblock => bmapWalk sv doalloc 3 idblock f >>=
      bmapReturn sv n).wp Q w := by
  have hnone : fbPath fb = none := by
    simp only [bufferLimit, doubleLimit] at hfb
    unfold fbPath
    dsimp only
    rw [dif_neg (by omega), if_neg (by omega), if_neg (by omega), if_neg (by omega)]
  have hslot : fbSlot fb = .triple := by
    simp only [bufferLimit, doubleLimit] at hfb
    unfold fbSlot
    dsimp only [doubleLimit]
    rw [dif_neg (by omega), if_neg (by omega), if_neg (by omega)]
  have hzero := fileBlock_of_none hnone (vol w) ((vol w).ino sv)
  have hread (hda : doalloc = false) : HoleRead (vol w) ((vol w).ino sv) fb := by
    simp only [HoleRead, hnone]
    refine ⟨hlt, ?_⟩
    rw [← hb]
    intro hz
    rw [h0 hz] at hda
    cases hda
  refine wp_loadRoot h (.inr (.inr rfl)) hslot hb h0 ?_
  intro b' w' hc hx hcur hor
  rw [Prog.wp_bind]
  have hsv' : sv ∈ (vol w').fs.sfsVnodes := by rw [hx.here.vnodes]; exact h.vnode
  refine wp_bmapWalk_outside hf hx.core hsv' (hc.writes h.writes) hcur h.alloc ?_ ?_ ?_ ?_
  · intro hda
    rcases hor with hd | ⟨hv, hbz⟩
    · exact .inl hd
    · cases hd : ((vol w').fs.heap sv).svDirty with
      | true => exact .inl rfl
      | false =>
        refine .inr (h.quiet hda ⟨hv ▸ hd, ?_, hlt, ?_, hzero⟩)
        · simp only [bufferLimit, doubleLimit] at hfb
          omega
        · rw [hslot, ← hb]
          exact hbz
  · exact fun hda => h.leak hda (hread hda)
  · intro e w'' hc' hx' he
    refine h.err e w'' (hc.trans hc') (hx.trans hx') (.inl (he.mono hc fun _ => ⟨hzero, ?_⟩))
    cases hda : doalloc with
    | true => exact .inl rfl
    | false => exact .inr (hread hda)
  · exact fun n w'' => h.stopped n w'' hfb

theorem wp_sfsBmap_direct (h : BmapSpec π L sv w fb doalloc Q) (hfb : fb < 15) :
    (sfsBmap sv fb doalloc).wp Q w := by
  have hpath : fbPath fb = some (.direct ⟨fb, hfb⟩, []) := by
    unfold fbPath
    rw [dif_pos hfb]
  have hfb' : fb < doubleLimit + 128 * 128 * 128 := by
    simp only [doubleLimit]
    omega
  have hLp := h.core.live sv h.vnode
  have hroot : (vol w).fileBlock ((vol w).ino sv) fb =
      ((vol w).fs.heap sv).svI.sfiDirect ⟨fb, hfb⟩ := by
    rw [fileBlock_of_path hpath, ref_nil, h.core.inode_eq h.vnode]
    rfl
  simp only [sfsBmap, sfsNdirect, dif_pos hfb, Prog.wp_bind, wp_getVnode]
  by_cases hz : (w.st.fs.heap sv).svI.sfiDirect ⟨fb, hfb⟩ = 0 ∧ doalloc = true
  · obtain ⟨hz, hda⟩ := hz
    simp only [hz, hda, and_self, if_true, Prog.wp_bind]
    refine wp_sfsBalloc h.core.toGeo h.writes ?_ ?_
    · intro c w' hc hcalm hv _
      obtain ⟨hfs, hdisk⟩ := Vol.mk.inj hv
      have hx := Extended.plant h.core h.vnode hc (h.alloc hda) (s := .direct ⟨fb, hfb⟩) hz
      have href := plant_ref h.core h.vnode hc (s := .direct ⟨fb, hfb⟩) hz hLp
        (.direct ⟨fb, hfb⟩) [] (Nat.zero_le _)
      rw [if_pos ⟨rfl, rfl, rfl⟩] at href
      simp only [wp_modifyInode, wp_setDirty]
      have hv' : vol ⟨⟨(w'.st.fs.modifyInode sv fun i => { i with
          sfiBlocks := i.sfiBlocks + 1
          sfiDirect := fun j => if j = ⟨fb, hfb⟩ then c else i.sfiDirect j }).modifyVnode sv
            fun n => { n with svDirty := true }, w'.st.bufs⟩, w'.env⟩ =
          (vol w).plant sv (.direct ⟨fb, hfb⟩) c := by
        simp only [vol_mk, modifyInode_eq, modifyVnode_modifyVnode, hfs, hdisk]
        rfl
      rw [← hv'] at hx href
      have hd : c = (vol ⟨⟨(w'.st.fs.modifyInode sv fun i => { i with
          sfiBlocks := i.sfiBlocks + 1
          sfiDirect := fun j => if j = ⟨fb, hfb⟩ then c else i.sfiDirect j }).modifyVnode sv
            fun n => { n with svDirty := true }, w'.st.bufs⟩, w'.env⟩).fileBlock
          ((vol w).ino sv) fb := by
        rw [fileBlock_of_path hpath, href]
      rw [← hx.here.ino_eq] at hd
      refine wp_bmapReturn hx.core (by rw [hx.here.vnodes]; exact h.vnode) hd ?_
      exact h.ok c _ hfb' ⟨hcalm.reads, hcalm.writes, hcalm.mem⟩ hx hd
        fun _ => hc.ne_zero h.core.toGeo
    · exact fun _ => h.err _ _ (.refl w) (.refl π h.core sv)
        (.inl (.inr ⟨rfl, hroot.trans hz, .inl hda⟩))
  · simp only [if_neg hz]
    refine wp_bmapReturn h.core h.vnode hroot.symm ?_
    refine h.ok _ _ hfb' (.refl w) (.refl π h.core sv) hroot.symm ?_
    exact fun hda h0 => hz ⟨h0, hda⟩

/-- A lookup through an inode pointer that is missing ends at once. -/
theorem wp_missingRoot {r : UInt32} {s : Slot} {p : Kern UInt32}
    (h : BmapSpec π L sv w fb doalloc Q) (hlt : fb < doubleLimit + 128 * 128 * 128)
    (hr : r = (vol w).ref ((vol w).ino sv) s [])
    (hs : ∀ s' l, fbPath fb = some (s', l) → s' = s)
    (hp : (r = 0 → doalloc = true) → p.wp Q w) :
    (if r = 0 ∧ ¬doalloc = true then pure 0 else p).wp Q w := by
  split
  · next hz =>
    simp only [Prog.wp_pure]
    refine h.ok _ _ hlt (.refl w) (.refl π h.core sv) ?_ fun hda => absurd hda hz.2
    cases hf : fbPath fb with
    | none => exact (fileBlock_of_none hf _ _).symm
    | some k =>
      rw [fileBlock_of_path hf, hs k.1 k.2 hf]
      exact (Forest.at_append_of_zero (p := []) (hr.symm.trans hz.1) k.2).symm
  · next hz =>
    apply hp
    intro h0
    by_contra hda
    exact hz ⟨h0, hda⟩

/-- Beyond the triple indirect range. -/
theorem wp_sfsBmap_beyond (hfb : doubleLimit + 128 * 128 * 128 ≤ fb) (herr : Q.err .einval w) :
    (sfsBmap sv fb doalloc).wp Q w := by
  simp only [doubleLimit] at hfb
  have hdirect : ¬ fb < 15 := by omega
  have hbig : (fb - 15) / (128 + 128 * 128 + 128 * 128 * 128) > 0 := by omega
  simp only [sfsBmap, sfsNdirect, sfsDbperidb, dif_neg hdirect]
  rw [if_pos hbig]
  simpa only [Prog.wp_fail] using herr

theorem wp_sfsBmap (h : BmapSpec π L sv w fb doalloc Q) : (sfsBmap sv fb doalloc).wp Q w := by
  by_cases hfb : fb < 15
  · exact wp_sfsBmap_direct h hfb
  have hroot (s : Slot) : (w.st.fs.heap sv).svI.root s = (vol w).ref ((vol w).ino sv) s [] := by
    rw [ref_nil, h.core.inode_eq h.vnode]
    rfl
  by_cases hlt : doubleLimit + 128 * 128 * 128 ≤ fb
  · exact wp_sfsBmap_beyond hlt (h.err _ _ (.refl w) (.refl π h.core sv) (.inr ⟨rfl, hlt⟩))
  rw [Nat.not_le] at hlt
  have hbig : ¬ (fb - 15) / (128 + 128 * 128 + 128 * 128 * 128) > 0 := by
    simp only [doubleLimit] at hlt
    omega
  simp only [sfsBmap, sfsNdirect, sfsDbperidb, dif_neg hfb]
  rw [if_neg hbig, Prog.wp_bind, wp_getVnode]
  dsimp only
  by_cases h1 : fb - 15 < 128
  · have hpath : fbPath fb = some (levelSlot 1, [Fin.ofNat 128 (fb - 15)]) := by
      unfold fbPath
      dsimp only
      rw [dif_neg hfb, if_pos h1]
      rfl
    have hlv : (if fb - 15 ≥ 128 * 128 + 128 then 3 else if fb - 15 ≥ 128 then 2 else 1) = 1 := by
      rw [if_neg (by omega), if_neg (by omega)]
    simp only [hlv, if_true]
    refine wp_missingRoot h hlt (hroot .indirect)
      (fun s' l hf => by rw [hpath] at hf; cases hf; rfl) fun h0 => ?_
    refine wp_bmapLevel h (.inl rfl) (by omega) hpath ?_ (hroot .indirect) h0
    intro Q b w' hs hcur
    exact wp_walk_last (l := []) hs hcur
  by_cases h2 : fb - 15 < 128 * 128 + 128
  · have hpath : fbPath fb = some (levelSlot 2,
        [Fin.ofNat 128 ((fb - 15 - 128) / 128), Fin.ofNat 128 (fb - 15 - 128)]) := by
      unfold fbPath
      dsimp only
      rw [dif_neg hfb, if_neg h1, if_pos h2]
      rfl
    have hlv : (if fb - 15 ≥ 128 * 128 + 128 then 3 else if fb - 15 ≥ 128 then 2 else 1) = 2 := by
      rw [if_neg (by omega), if_pos (by omega)]
    simp only [hlv, OfNat.ofNat_ne_one, if_true, if_false]
    refine wp_missingRoot h hlt (hroot .double)
      (fun s' l hf => by rw [hpath] at hf; cases hf; rfl) fun h0 => ?_
    refine wp_bmapLevel h (.inr (.inl rfl)) (by omega) hpath ?_ (hroot .double) h0
    intro Q b w' hs hcur
    exact wp_bmapWalk_double (by omega) hs hcur
  · have hlv : (if fb - 15 ≥ 128 * 128 + 128 then 3 else if fb - 15 ≥ 128 then 2 else 1) = 3 := by
      rw [if_pos (by omega)]
    simp only [hlv, OfNat.ofNat_ne_one, Nat.reduceEqDiff, if_false]
    by_cases h3 : fb - 15 - (128 * 128 - 128) < 128 * 128
    · have hpath : fbPath fb = some (levelSlot 3,
          [0, Fin.ofNat 128 ((fb - 15 - (128 * 128 - 128)) / 128),
            Fin.ofNat 128 (fb - 15 - (128 * 128 - 128))]) := by
        unfold fbPath
        dsimp only
        rw [dif_neg hfb, if_neg h1, if_neg h2, if_pos h3]
        rfl
      refine wp_missingRoot h hlt (hroot .triple)
        (fun s' l hf => by rw [hpath] at hf; cases hf; rfl) fun h0 => ?_
      refine wp_bmapLevel h (.inr (.inr rfl)) (by omega) hpath ?_ (hroot .triple) h0
      intro Q b w' hs hcur
      exact wp_bmapWalk_triple h3 hs hcur
    · have hnone : fbPath fb = none := by
        unfold fbPath
        dsimp only
        rw [dif_neg hfb, if_neg h1, if_neg h2, if_neg h3]
      refine wp_missingRoot h hlt (hroot .triple)
        (fun s' l hf => by rw [hnone] at hf; cases hf) fun h0 => ?_
      refine wp_bmapLevel_outside h ?_ ?_ h3 (hroot .triple) h0
      · simp only [bufferLimit, doubleLimit]
        omega
      · exact hlt

end Bmap

end Os161.Sfs

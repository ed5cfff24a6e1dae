import Os161.Lib.Slots
import Os161.Sfs.Contents

/-! # Directory entries

A directory file is a table of slots. Reading an entry changes nothing; linking a name fills a
free slot and unlinking one frees its slot, and both leave the other slots and all other files
alone. A directory that needs another block and gets none stays as it is. -/
namespace Os161.Sfs
open Os161.Lib Kern Vol

/-! ## The table in a directory file -/

/-- What an entry says: nothing if it is free. -/
def SfsDir.binding (d : SfsDir) : Option (CString × UInt32) :=
  if d.sfdIno = sfsNoino then none else some (d.name, d.sfdIno)

theorem SfsDir.binding_mk' {ino : UInt32} {name : CString} (h0 : ino ≠ sfsNoino)
    (hlen : name.length + 1 ≤ sfsNamelen) : (SfsDir.mk' ino name).binding = some (name, ino) := by
  have hne : ¬ (SfsDir.mk' ino name).sfdIno = sfsNoino := h0
  rw [SfsDir.binding, if_neg hne, SfsDir.name_mk' ino hlen]
  rfl

namespace Content

variable {f : Content} {i j : Nat}

def entry (f : Content) (i : Nat) : SfsDir :=
    SfsDir.ofBytes (slice f.get (i * SfsDir.size) SfsDir.size)

def nentries (f : Content) : Nat := f.size / SfsDir.size

def slots (f : Content) : Slots CString UInt32 :=
  (List.range f.nentries).map fun i => (f.entry i).binding

@[simp] theorem length_slots (f : Content) : f.slots.length = f.nentries := by
  rw [slots, List.length_map, List.length_range]

theorem getElem?_slots (hi : i < f.nentries) : f.slots[i]? = some (f.entry i).binding := by
  rw [slots, List.getElem?_map, List.getElem?_range hi, Option.map_some]

theorem write_nil {o : Nat} (h : o ≤ f.size) : f.write o [] = f := by
  ext1
  · exact Nat.max_eq_left h
  · exact overlay_nil _ _

theorem slice_overlay_self (g : Nat → UInt8) (o : Nat) (l : List UInt8) :
    slice (overlay g o l) o l.length = l := by
  refine List.ext_getElem (length_slice _ _ _) fun k h1 h2 => ?_
  rw [getElem_slice, overlay_of_mem (by omega) (by omega)]
  congr 1
  omega

theorem entry_write {d : SfsDir} (hd : d.toBytes.length = SfsDir.size) :
    (f.write (i * SfsDir.size) d.toBytes).entry j = if j = i then d else f.entry j := by
  simp only [SfsDir.size] at hd ⊢
  unfold entry Content.write
  simp only [SfsDir.size]
  split
  · next h =>
    subst h
    have hself := slice_overlay_self f.get (j * 64) d.toBytes
    rw [hd] at hself
    rw [hself, SfsDir.ofBytes_toBytes]
  · next h =>
    congr 1
    rcases Nat.lt_or_gt_of_ne h with h | h
    · exact slice_overlay_of_le (by omega)
    · exact slice_overlay_of_ge (by omega)

theorem slots_write {d : SfsDir} (hd : d.toBytes.length = SfsDir.size)
    (hwhole : f.size % SfsDir.size = 0) (hi : i ≤ f.nentries) :
    (f.write (i * SfsDir.size) d.toBytes).slots = f.slots.put i d.binding := by
  have hn : (f.write (i * SfsDir.size) d.toBytes).nentries = max f.nentries (i + 1) := by
    simp only [nentries, SfsDir.size, Content.write] at hd hi hwhole ⊢
    omega
  apply List.ext_getElem?
  intro j
  rw [Slots.getElem?_put (by rwa [length_slots])]
  by_cases hj : j < max f.nentries (i + 1)
  · rw [getElem?_slots (by rwa [hn]), entry_write hd]
    split
    · rfl
    · rw [getElem?_slots (by omega)]
  · rw [List.getElem?_eq_none (by rw [length_slots, hn]; omega), if_neg (by omega),
      List.getElem?_eq_none (by rw [length_slots]; omega)]

end Content

/-! ## Transfers within a block -/

section Within

variable {L : UInt32 → Prop} {π : Perm} {w w' : World} {sv : Ptr} {src : List UInt8} {u : Uio}

theorem wp_sfsIo_body_within {Q : Post machine (Uio × Result)}
    (h : BlockSpec π L sv src u w u.uioResid Q) (hfit : u.pos % 512 + u.uioResid ≤ 512)
    (hlt : u.uioResid < 512) (hpos : 0 < u.uioResid) : (sfsIo.body sv u).wp Q w := by
  have hs := h.sound
  have hb : u32 (u.uioOffset.tmod sfsBlocksize) = u.pos % 512 := hs.tmod
  rw [sfsIo.body, hb]
  by_cases h0 : u.pos % 512 ≠ 0
  · have hlen : min (u32 (((sfsBlocksize : Nat) : Int) - ((u.pos % 512 : Nat) : Int))) u.uioResid =
        u.uioResid := by
      rw [u32_eq (by simp only [sfsBlocksize]; omega) (by simp only [sfsBlocksize]; omega)]
      simp only [sfsBlocksize]
      omega
    dsimp only
    rw [if_pos h0, hlen, Prog.wp_bind]
    refine wp_sfsPartialio (π := π) (L := L) ⟨h.core, h.vnode, h.writes, hs, h.fits, h.alloc,
      h.quiet, h.leak, ?_, ?_, h.stopped⟩ rfl (by omega)
    · intro l w' hm hl
      have hres : (u.advance l).uioResid = 0 := by
        rw [hs.resid_advance hm.fits]
        omega
      dsimp only
      rw [sfsIo.aligned, if_pos hres, Prog.wp_pure]
      exact h.ok l w' hm hl
    · intro l w' e hm hl hnil he
      dsimp only
      rw [Prog.wp_pure]
      exact h.fail l w' e hm hl hnil he
  · have hz : u.pos % 512 = 0 := not_not.mp h0
    have hoff : ¬ u.uioOffset.tmod sfsBlocksize ≠ 0 := by
      have := hs.pos_lt
      rw [hs.offset_eq, Int.tmod_eq_emod_of_nonneg (by omega)]
      simp only [sfsBlocksize]
      omega
    have hdiv : u.uioResid / sfsBlocksize = 0 := by
      simp only [sfsBlocksize]
      omega
    dsimp only
    rw [if_neg h0, sfsIo.aligned, if_neg (by omega), if_neg hoff, hdiv, Prog.wp_bind, sfsIo.blocks,
      Prog.wp_pure]
    dsimp only
    rw [if_neg (by simp only [sfsBlocksize]; omega), if_pos hpos]
    exact wp_sfsPartialio h hz.symm (by omega)

/-- A write within a block is done as a whole or not at all. -/
theorem wp_sfsIo_write_within {Q : Post machine (Uio × Result)} (h : Ready L sv w)
    (hs : u.Sound src) (hw : u.uioRw = .uioWrite) (hpos : 0 < u.uioResid)
    (hfit : u.pos % 512 + u.uioResid ≤ 512) (hsmall : u.uioResid < 512)
    (hlt : u.block < bufferLimit)
    (hmap : u.iovPos + u.uioResid ≤ u.iovMapped)
    (hok : ∀ l w', Transferred ⟨True, True, True⟩ L sv src u w l w' → l.length = u.uioResid →
      Q.ok (u.advance l, none) w')
    (hfull : ∀ w', (vol w).fileBlock ((vol w).ino sv) u.block = 0 →
      Transferred ⟨True, True, True⟩ L sv src u w [] w' → Q.ok (u, some .enospc) w') :
    (sfsIo sv u).wp Q w := by
  have hnot : ¬ u.uioRw = .uioRead := by rw [hw]; decide
  have hresid (l : List UInt8) (hl : l.length ≤ u.uioResid) :
      { u.advance l with uioResid := u32 (((u.advance l).uioResid : Int) + (0 : Nat)) } =
        u.advance l := by
    have := hs.small
    rw [hs.resid_advance hl, u32_eq (by omega) (by omega)]
    ext1 <;> try rfl
    simp only
    rw [hs.resid_advance hl]
    omega
  have hout {l : List UInt8} {w₁ w₂ : World} (hm : Moves ⟨True, True, True⟩ L sv src u w l w₁)
      (hc : Calm w₁ w₂) (hv : vol w₂ = if (u.advance l).uioRw = .uioWrite then
        (vol w₁).extend sv (u.advance l).uioOffset else vol w₁) :
      Transferred ⟨True, True, True⟩ L sv src u w l w₂ := by
    refine ⟨w₁, hm, hc, ?_⟩
    rw [hv, hs.offset_advance hm.high]
    rfl
  rw [sfsIo, Prog.wp_bind, wp_getVnode]
  dsimp only
  rw [if_neg fun hx => hnot hx.1, if_neg fun hx => hnot hx.1, Prog.wp_bind]
  refine wp_sfsIo_body_within (π := ⟨True, True, True⟩) (L := L) ⟨h.core, h.vnode, h.writes, hs,
    Nat.le_refl _, fun _ => trivial, fun _ _ => trivial, fun hr => absurd hr hnot, ?_, ?_, ?_⟩
    hfit hsmall hpos
  · intro l w₁ hm hl
    refine wp_sfsIo_out fun w₂ hc hv => ?_
    rw [hresid l (Nat.le_of_eq hl)]
    exact hok l w₂ (hout hm hc hv) hl
  · intro l w₁ e hm _ hnil he
    obtain rfl := hnil hw
    refine wp_sfsIo_out fun w₂ hc hv => ?_
    rw [hresid [] (Nat.zero_le _), hs.advance_nil]
    rcases he with ((⟨-, hr⟩ | ⟨rfl, h0, -⟩) | ⟨-, hge⟩) | ⟨-, hgt⟩
    · exact absurd h.reads hr
    · exact hfull w₂ h0 (hout hm hc hv)
    · simp only [bufferLimit, doubleLimit] at hlt hge
      omega
    · omega
  · intro m w₁ hge
    simp only [bufferLimit, doubleLimit] at hlt hge
    omega

end Within

/-! ## Entries -/

/-- What `sfs_bmap` can map without running over its buffer. -/
@[reducible, simp] def dirLimit : Nat := bufferLimit * 512

/-- The directory in `d`: a whole number of entries, and no holes. -/
structure Dir (d : Ptr) (v : Vol) : Prop where
  root : v.ino d = sfsRootLocation
  whole : (v.content (v.ino d)).size % SfsDir.size = 0
  range : (v.content (v.ino d)).size ≤ dirLimit
  solid : ∀ x, x < (v.content (v.ino d)).size → v.fileBlock (v.ino d) (x / 512) ≠ 0

/-- The table of the directory in `d`. -/
def Vol.slots (v : Vol) (d : Ptr) : Slots CString UInt32 := (v.content (v.ino d)).slots

section Entries

variable {L : UInt32 → Prop} {w w' : World} {d : Ptr} {i n : Nat} {name : CString} {ino : UInt32}

theorem Dir.size_lt {v : Vol} (h : Dir d v) : (v.content (v.ino d)).size < 2 ^ 31 := by
  have := h.range
  simp only [dirLimit, bufferLimit, doubleLimit] at this
  omega

theorem not_holeRead {v : Vol} {j : UInt32} {fb : Nat} (h : v.fileBlock j fb ≠ 0) :
    ¬ HoleRead v j fb := by
  obtain ⟨s, l, hf, hb⟩ := path_of_fileBlock h
  unfold HoleRead
  rw [hf]
  intro hx
  obtain ⟨-, hx⟩ := hx
  rw [hb] at h
  rcases List.eq_nil_or_concat l with rfl | ⟨m, a, rfl⟩
  · exact h hx
  · rw [List.concat_eq_append] at hx h
    rw [List.dropLast_concat] at hx
    exact ref_ne_zero_of_append h hx

theorem slotPos {i : Nat} (h : i * SfsDir.size < 2 ^ 31) :
    i32 (u32 ((i : Nat) * (SfsDir.size : Nat) : Int)) = (i * SfsDir.size : Nat) := by
  have he : ((i : Nat) * (SfsDir.size : Nat) : Int) = ((i * SfsDir.size : Nat) : Int) := by
    push_cast
    rfl
  rw [he, u32_natCast (by omega), i32_eq (by omega) (by omega)]

theorem sound_kuio {src : List UInt8} {o : Nat} {rw' : UioRw} (ho : o < 2 ^ 31)
    (hn : n < 2 ^ 32) (hsrc : rw' = .uioWrite → n ≤ src.length) :
    (mkKuio (fun _ => src) n o rw').Sound src where
  base _ := rfl
  room := Nat.le_refl _
  small := hn
  enough hw := by simpa [mkKuio] using hsrc hw
  low := by
    show (0 : Int) ≤ (o : Nat)
    omega
  high := by
    show ((o : Nat) : Int) < 2 ^ 31
    omega

theorem wp_sfsReaddir {Q : Post machine SfsDir} (h : Ready L d w) (hd : Dir d (vol w))
    (hi : i < ((vol w).content ((vol w).ino d)).nentries)
    (hok : ∀ w', vol w' = vol w → Calm w w' →
      Q.ok (((vol w).content ((vol w).ino d)).entry i) w') : (sfsReaddir d i).wp Q w := by
  have hrange := hd.range
  have hsize := size_of_lt h.core h.vnode hd.size_lt
  generalize hf : (vol w).content ((vol w).ino d) = f at *
  have hin : i * 64 + 64 ≤ f.size := by
    simp only [Content.nentries, SfsDir.size] at hi
    omega
  simp only [dirLimit, bufferLimit, doubleLimit] at hrange
  rw [sfsReaddir, slotPos (by simp only [SfsDir.size]; omega), Prog.wp_bind]
  have hs : (mkKuio (fun _ => []) SfsDir.size (i * SfsDir.size : Nat) .uioRead).Sound [] :=
    sound_kuio (by simp only [SfsDir.size]; omega) (by decide) (by decide)
  generalize hu : mkKuio (fun _ => []) SfsDir.size (i * SfsDir.size : Nat) .uioRead = u at hs ⊢
  have hr : u.uioRw = .uioRead := by rw [← hu]; rfl
  have hnot : ¬ u.uioRw = .uioWrite := by rw [hr]; decide
  have hposu : u.pos = i * 64 := by
    rw [← hu]
    exact Int.toNat_natCast _
  have hresid : u.uioResid = 64 := by rw [← hu]; rfl
  have hmapped : u.iovPos + u.uioResid = u.iovMapped := by rw [← hu]; rfl
  have hclip : u.clip ((vol w).size d) = u := by
    rw [Uio.clip, if_neg]
    intro hx
    obtain ⟨-, hx⟩ := hx
    rw [hs.offset_eq, hposu, hresid, hsize, i32_eq (by omega) (by omega)] at hx
    omega
  have hmap (fb : Nat) (ht : u.Touches fb) : (vol w).fileBlock ((vol w).ino d) fb ≠ 0 := by
    obtain ⟨h1, h2⟩ := ht
    rw [Uio.block, hposu] at h1
    rw [hposu, hresid] at h2
    have := hd.solid (max (i * 64) (fb * 512)) (by rw [hf]; omega)
    rwa [show max (i * 64) (fb * 512) / 512 = fb by omega] at this
  refine wp_sfsIo (π := ⟨False, False, False⟩) (L := L) ⟨h.core, h.vnode, h.writes, hs,
    iff_of_false hnot id, fun hw => absurd hw hnot, ?_, ?_, ?_, ?_, ?_⟩
  · intro _ _ fb ht hh
    rw [hclip] at ht
    exact not_holeRead (hmap fb ht) hh
  · intro _ heof
    rw [hs.offset_eq, hposu, hsize] at heof
    omega
  · intro l w' _ ht hl
    rw [hclip, hresid] at hl
    obtain ⟨w₁, hm, hc, hv⟩ := ht
    rw [if_neg hnot, FileSteps.eq id id hm.steps] at hv
    have hgot := hm.got hr
    rw [hl, hposu] at hgot
    dsimp only
    rw [Prog.wp_bind, wp_check_none]
    dsimp only
    have hzero : ¬ (u.advance l).uioResid > 0 := by
      rw [hs.resid_advance (by omega)]
      omega
    rw [if_neg hzero, Prog.wp_pure]
    have hout : (u.advance l).iovOut = l := by
      rw [← hu] at hr ⊢
      simp [Uio.advance, mkKuio]
    rw [hout, hgot]
    have hget : (vol w).byte ((vol w).ino d) = f.get := by rw [← hf]; rfl
    rw [hget]
    exact hok w' hv (hm.calm.trans hc)
  · intro l w' e ht he
    rw [hclip] at he
    rcases he with ⟨-, hx⟩ | ⟨-, hx⟩ | ⟨-, fb, hx, h0, -⟩ | ⟨-, fb, hx, hge⟩
    · exact absurd h.reads hx
    · omega
    · exact absurd h0 (hmap fb hx)
    · have := hx.2
      simp only [doubleLimit] at hge
      omega
  · intro m w' hx
    obtain ⟨fb, ht, hge⟩ := hx
    rw [hclip] at ht
    have := ht.2
    simp only [bufferLimit, doubleLimit] at hge
    omega

/-- What a change of one entry leaves as it is. -/
structure Rewritten (L : UInt32 → Prop) (d : Ptr) (w w' : World) : Prop where
  worked : Worked L d (vol w) (vol w')
  calm : Calm w w'
  dir : Dir d (vol w')

theorem Rewritten.refl (h : Core L (vol w)) (hd : Dir d (vol w)) : Rewritten L d w w :=
  ⟨.refl h d, .refl w, hd⟩

theorem Ready.rewritten (h : Ready L d w) (hw : Rewritten L d w w') : Ready L d w' where
  core := hw.worked.core
  vnode := by rw [hw.worked.here.vnodes]; exact h.vnode
  reads := hw.calm.reads h.reads
  writes := hw.calm.writes h.writes

theorem Transferred.keep {u : Uio} {src l : List UInt8} {π : Perm} {sv : Ptr}
    (hsv : sv ∈ (vol w).fs.sfsVnodes) (hw : u.uioRw = .uioWrite)
    (ht : Transferred π L sv src u w l w') {x : Nat} (h1 : u.pos ≤ x) (h2 : x < u.pos + l.length) :
    (vol w').fileBlock ((vol w).ino sv) (x / 512) ≠ 0 := by
  obtain ⟨w₁, hm, -, hv⟩ := ht
  have hmap := hm.mapped hw x h1 h2
  rw [if_pos hw] at hv
  have hk := (Worked.extend hm.grown.core
    (by rw [hm.grown.here.vnodes]; exact hsv) (u.pos + l.length : Nat)).keep (x / 512)
  rw [hm.grown.here.ino_eq, ← hv] at hk
  exact hk hmap

/-- The directory after a write of whole entries at the end or before it. -/
theorem Dir.transferred {u : Uio} {src l : List UInt8} (h : Ready L d w) (hd : Dir d (vol w))
    (hw : u.uioRw = .uioWrite) (ht : Transferred ⟨True, True, True⟩ L d src u w l w')
    (hpos : u.pos ≤ ((vol w).content ((vol w).ino d)).size) (hposm : u.pos % 64 = 0)
    (hl : l.length % 64 = 0) (hfit : u.pos + l.length ≤ dirLimit) :
    Rewritten L d w w' ∧ (vol w').content ((vol w).ino d) =
      ((vol w).content ((vol w).ino d)).write u.pos l := by
  have hworked := ht.worked h.core h.vnode
  have hino := hworked.here.ino_eq
  have hc := ht.content_write h.core h.vnode hd.size_lt hw
  have hrange := hd.range
  have hwhole := hd.whole
  have hsize : ((vol w').content ((vol w).ino d)).size =
      max ((vol w).content ((vol w).ino d)).size (u.pos + l.length) := by
    rw [hc]
    rfl
  refine ⟨⟨hworked, ht.calm, by rw [hino]; exact hd.root, ?_, ?_, fun x hx => ?_⟩, hc⟩
  · rw [hino, hsize]
    simp only [SfsDir.size] at hwhole ⊢
    omega
  · rw [hino, hsize]
    omega
  · rw [hino, hsize] at hx
    rw [hino]
    by_cases hlt : x < ((vol w).content ((vol w).ino d)).size
    · exact hworked.keep _ (hd.solid x hlt)
    · exact ht.keep h.vnode hw (by omega) (by omega)

theorem wp_sfsWritedir {sd : SfsDir} {Q : Post machine Unit} (h : Ready L d w)
    (hd : Dir d (vol w)) (hlen : sd.toBytes.length = SfsDir.size)
    (hi : i ≤ ((vol w).content ((vol w).ino d)).nentries)
    (hroom : i * SfsDir.size + SfsDir.size ≤ dirLimit)
    (hok : ∀ w', Rewritten L d w w' → (vol w').slots d = ((vol w).slots d).put i sd.binding →
      Q.ok () w')
    (hfull : ∀ w', ((vol w).content ((vol w).ino d)).nentries = i → Rewritten L d w w' →
      (vol w').slots d = (vol w).slots d → Q.err .enospc w') : (sfsWritedir d sd i).wp Q w := by
  have hwhole := hd.whole
  have hin : i * 64 ≤ ((vol w).content ((vol w).ino d)).size := by
    simp only [Content.nentries, SfsDir.size] at hi
    omega
  simp only [dirLimit, bufferLimit, doubleLimit, SfsDir.size] at hroom hlen hwhole
  rw [sfsWritedir, slotPos (by simp only [SfsDir.size]; omega), Prog.wp_bind]
  have hs : (mkKuio (fun _ => sd.toBytes) SfsDir.size (i * SfsDir.size : Nat) .uioWrite).Sound
      sd.toBytes := sound_kuio (by simp only [SfsDir.size]; omega) (by decide)
    fun _ => by simp only [SfsDir.size]; omega
  generalize hu : mkKuio (fun _ => sd.toBytes) SfsDir.size (i * SfsDir.size : Nat) .uioWrite = u
    at hs ⊢
  have hw : u.uioRw = .uioWrite := by rw [← hu]; rfl
  have hpos : u.pos = i * 64 := by
    rw [← hu]
    exact Int.toNat_natCast _
  have hresid : u.uioResid = 64 := by rw [← hu]; rfl
  have hiov : u.iovPos = 0 := by rw [← hu]; rfl
  have hmapped : u.iovMapped = 64 := by rw [← hu]; rfl
  have hfits : u.pos + 64 ≤ dirLimit := by
    simp only [dirLimit, bufferLimit, doubleLimit]
    omega
  have hblock : u.block = i * 64 / 512 := by rw [Uio.block, hpos]
  refine wp_sfsIo_write_within h hs hw (by omega) (by omega) (by omega) ?_ (by omega) ?_ ?_
  · rw [hblock, bufferLimit, doubleLimit]
    omega
  · intro l w' ht hl
    have hdata : l = sd.toBytes := by
      obtain ⟨w₁, hm, -, -⟩ := ht
      have := hm.put hw
      rw [hiov, List.drop_zero, hl, hresid, ← hlen, List.take_length] at this
      exact this
    obtain ⟨hre, hc⟩ := hd.transferred h hw ht (by omega) (by omega) (by omega) (by omega)
    dsimp only
    rw [Prog.wp_bind, wp_check_none]
    dsimp only
    have hzero : ¬ (u.advance l).uioResid > 0 := by
      rw [hs.resid_advance (by omega)]
      omega
    rw [if_neg hzero, Prog.wp_pure]
    refine hok w' hre ?_
    rw [Vol.slots, hre.worked.here.ino_eq, hc, hpos, hdata]
    exact Content.slots_write hlen hd.whole hi
  · intro w' h0 ht
    obtain ⟨hre, hc⟩ := hd.transferred h hw ht (by omega) (by omega) (by simp)
      (by rw [List.length_nil]; omega)
    dsimp only
    rw [Prog.wp_bind, wp_check_some]
    refine hfull w' ?_ hre ?_
    · have hnot : ¬ i * 64 < ((vol w).content ((vol w).ino d)).size := fun hlt =>
        hd.solid _ hlt (hblock ▸ h0)
      simp only [Content.nentries, SfsDir.size]
      omega
    · rw [Vol.slots, hre.worked.here.ino_eq, hc, hpos, Content.write_nil hin]
      rfl

/-! ## Names -/

theorem wp_sfsDirNentries {Q : Post machine Nat} (h : Ready L d w) (hd : Dir d (vol w))
    (hok : Q.ok ((vol w).slots d).length w) : (sfsDirNentries d).wp Q w := by
  have hL := h.core.live d h.vnode
  have htype : (w.st.fs.heap d).svI.sfiType = sfsTypeDir := by
    have ht := h.core.type _ hL
    rwa [if_pos hd.root, h.core.inode_eq h.vnode] at ht
  have hsize : ((vol w).content ((vol w).ino d)).size = (w.st.fs.heap d).svI.sfiSize.toNat := by
    rw [Vol.content, h.core.inode_eq h.vnode]
    rfl
  have hwhole := hd.whole
  rw [hsize] at hwhole
  rw [sfsDirNentries, Prog.wp_bind, wp_getVnode]
  dsimp only
  rw [if_neg (not_not.mpr htype), if_neg (not_not.mpr hwhole), Prog.wp_pure]
  rwa [Vol.slots, Content.length_slots, Content.nentries, hsize] at hok

/-- What a scan over the first `n` slots of `t` has found. -/
structure Scanned (t : Slots CString UInt32) (name : CString) (n : Nat) (r : Findname) : Prop where
  found : ∀ a j, r.found = some (a, j) → j < n ∧ t.Binds j name a
  absent : r.found = none → ∀ j a, j < n → ¬ t.Binds j name a
  empty : ∀ j, r.emptyslot = some j → j < n ∧ t[j]? = some none
  full : r.emptyslot = none → ∀ j, j < n → t[j]? ≠ some none

theorem wp_findname_scan {Q : Post machine Findname} {r : Findname} (h : Ready L d w)
    (hd : Dir d (vol w)) (hdis : ((vol w).slots d).Distinct)
    (hn : i + n = ((vol w).slots d).length) (hr : Scanned ((vol w).slots d) name i r)
    (hok : ∀ r w', vol w' = vol w → Calm w w' →
      Scanned ((vol w).slots d) name ((vol w).slots d).length r → Q.ok r w') :
    (sfsDirFindname.scan d name n i r).wp Q w := by
  induction n generalizing i r w with
  | zero =>
    rw [sfsDirFindname.scan, Prog.wp_pure]
    rw [Nat.add_zero] at hn
    exact hok r w rfl (.refl w) (hn ▸ hr)
  | succ n ih =>
    have hi : i < ((vol w).content ((vol w).ino d)).nentries := by
      rw [Vol.slots, Content.length_slots] at hn
      omega
    have hslot : ((vol w).slots d)[i]? = some (((vol w).content ((vol w).ino d)).entry i).binding :=
      Content.getElem?_slots hi
    rw [sfsDirFindname.scan, Prog.wp_bind]
    refine wp_sfsReaddir h hd hi fun w₁ hv hc => ?_
    generalize ((vol w).content ((vol w).ino d)).entry i = e at hslot ⊢
    have hnext (r' : Findname) (hr' : Scanned ((vol w).slots d) name (i + 1) r') :
        (sfsDirFindname.scan d name n (i + 1) r').wp Q w₁ := by
      refine ih ⟨hv ▸ h.core, hv ▸ h.vnode, hc.reads h.reads, hc.writes h.writes⟩ (hv ▸ hd)
        (hv ▸ hdis) (by rw [hv]; omega) (by rw [hv]; exact hr') fun r w' hv' hc' hs => ?_
      rw [hv] at hs
      exact hok r w' (hv'.trans hv) (hc.trans hc') hs
    have hlast {j : Nat} (hj : j < i + 1) (hne : ¬ j < i) : j = i := by omega
    dsimp only
    rw [SfsDir.binding] at hslot
    by_cases h0 : e.sfdIno = sfsNoino
    · -- a free slot
      rw [if_pos h0] at hslot ⊢
      refine hnext _ ⟨fun a j hj => ?_, fun hnone j a hj hb => ?_, fun j hj => ?_, fun hno => ?_⟩
      · obtain ⟨hlt, hb⟩ := hr.found a j hj
        exact ⟨by omega, hb⟩
      · by_cases hlt : j < i
        · exact hr.absent hnone j a hlt hb
        · rw [hlast hj hlt, Slots.Binds, hslot] at hb
          cases hb
      · cases hj
        exact ⟨Nat.lt_succ_self i, hslot⟩
      · cases hno
    rw [if_neg h0] at hslot ⊢
    have hempty (r' : Findname) (he : r'.emptyslot = r.emptyslot) :
        (∀ j, r'.emptyslot = some j → j < i + 1 ∧ ((vol w).slots d)[j]? = some none) ∧
          (r'.emptyslot = none → ∀ j, j < i + 1 → ((vol w).slots d)[j]? ≠ some none) := by
      rw [he]
      refine ⟨fun j hj => ?_, fun hno j hj => ?_⟩
      · obtain ⟨hlt, hx⟩ := hr.empty j hj
        exact ⟨by omega, hx⟩
      · by_cases hlt : j < i
        · exact hr.full hno j hlt
        · rw [hlast hj hlt, hslot]
          simp
    by_cases hname : e.name = name
    · -- the name itself
      have hb : ((vol w).slots d).Binds i name e.sfdIno := by rw [Slots.Binds, hslot, hname]
      have hfirst : r.found = none := by
        cases hf : r.found with
        | none => rfl
        | some x =>
          obtain ⟨a, j⟩ := x
          obtain ⟨hlt, hb'⟩ := hr.found a j hf
          have := hdis j i name a e.sfdIno hb' hb
          omega
      rw [if_pos hname, hfirst, if_neg (by simp)]
      obtain ⟨he1, he2⟩ := hempty { r with found := some (e.sfdIno, i) } rfl
      refine hnext _ ⟨fun a j hj => ?_, fun hno => (by cases hno), he1, he2⟩
      cases hj
      exact ⟨Nat.lt_succ_self i, hb⟩
    · rw [if_neg hname]
      obtain ⟨he1, he2⟩ := hempty r rfl
      refine hnext _ ⟨fun a j hj => ?_, fun hnone j a hj hb => ?_, he1, he2⟩
      · obtain ⟨hlt, hb⟩ := hr.found a j hj
        exact ⟨by omega, hb⟩
      · by_cases hlt : j < i
        · exact hr.absent hnone j a hlt hb
        · rw [hlast hj hlt, Slots.Binds, hslot] at hb
          cases hb
          exact hname rfl

theorem wp_sfsDirFindname {Q : Post machine Findname} (h : Ready L d w) (hd : Dir d (vol w))
    (hdis : ((vol w).slots d).Distinct)
    (hok : ∀ r w', vol w' = vol w → Calm w w' →
      Scanned ((vol w).slots d) name ((vol w).slots d).length r → Q.ok r w') :
    (sfsDirFindname d name).wp Q w := by
  rw [sfsDirFindname, Prog.wp_bind]
  refine wp_sfsDirNentries h hd ?_
  dsimp only
  refine wp_findname_scan h hd hdis (Nat.zero_add _) ⟨fun a j hj => ?_, fun _ j a hj => ?_,
    fun j hj => ?_, fun _ j hj => ?_⟩ hok
  · cases hj
  · omega
  · cases hj
  · omega

namespace Scanned

variable {t : Slots CString UInt32} {r : Findname} {a : UInt32}

theorem find_eq (h : Scanned t name t.length r) (hdis : t.Distinct) :
    t.find name = r.found.map Prod.fst := by
  cases hr : r.found with
  | none =>
    rw [Option.map_none, Slots.find_eq_none]
    exact fun i a hb => h.absent hr i a hb.lt hb
  | some x =>
    obtain ⟨a, j⟩ := x
    rw [Option.map_some, Slots.find_eq_some hdis]
    exact ⟨j, (h.found a j hr).2⟩

/-- The slot `sfs_dir_link` takes. -/
theorem free (h : Scanned t name t.length r) : t.Free (r.emptyslot.getD t.length) := by
  cases hr : r.emptyslot with
  | none => exact .inr rfl
  | some j => exact .inl (h.empty j hr).2

end Scanned

/-- Why a name was not linked. -/
inductive LinkFails (t : Slots CString UInt32) (name : CString) : Errno → Prop
  | eexist (h : t.find name ≠ none) : LinkFails t name .eexist
  | enametoolong (h : t.find name = none) (hlen : sfsNamelen < name.length + 1) :
      LinkFails t name .enametoolong
  | enospc (h : t.find name = none) (hfull : ∀ j : Nat, t[j]? ≠ some none) :
    LinkFails t name .enospc

/-- A name was linked in slot `i`, which is behind the end only if no slot is free. -/
structure LinkedAt (t : Slots CString UInt32) (name : CString) (i : Nat) : Prop where
  absent : t.find name = none
  fits : name.length + 1 ≤ sfsNamelen
  free : t.Free i
  reused : i = t.length → ∀ j : Nat, t[j]? ≠ some none

/-- If the name needs another slot, the directory has room for it: it does not outgrow what
`sfs_bmap` can map. -/
def NameFits (t : Slots CString UInt32) (name : CString) : Prop :=
  t.find name = none → name.length + 1 ≤ sfsNamelen → (∀ j : Nat, t[j]? ≠ some none) →
    (t.length + 1) * SfsDir.size ≤ dirLimit

theorem wp_sfsDirLink {Q : Post machine Nat} (h : Ready L d w) (hd : Dir d (vol w))
    (hdis : ((vol w).slots d).Distinct) (h0 : ino ≠ sfsNoino)
    (hroom : NameFits ((vol w).slots d) name)
    (hok : ∀ i w', Rewritten L d w w' → LinkedAt ((vol w).slots d) name i →
      (vol w').slots d = ((vol w).slots d).put i (some (name, ino)) → Q.ok i w')
    (herr : ∀ e w', Rewritten L d w w' → LinkFails ((vol w).slots d) name e →
      (vol w').slots d = (vol w).slots d → Q.err e w') : (sfsDirLink d name ino).wp Q w := by
  rw [sfsDirLink, Prog.wp_bind]
  refine wp_sfsDirFindname h hd hdis fun r w₁ hv hc hs => ?_
  have hfind := hs.find_eq hdis
  have hre : Rewritten L d w w₁ := ⟨hv ▸ .refl h.core d, hc, hv ▸ hd⟩
  have h₁ : Ready L d w₁ := h.rewritten hre
  dsimp only
  by_cases hf : r.found.isSome = true
  · rw [if_pos hf, Prog.wp_fail]
    refine herr _ w₁ hre (.eexist ?_) (by rw [hv])
    obtain ⟨x, hx⟩ := Option.isSome_iff_exists.mp hf
    rw [hfind, hx]
    exact Option.some_ne_none _
  have hnone : ((vol w).slots d).find name = none := by
    rw [hfind, Option.not_isSome_iff_eq_none.mp hf]
    rfl
  rw [if_neg hf]
  by_cases hlen : name.length + 1 > sfsNamelen
  · rw [if_pos hlen, Prog.wp_fail]
    exact herr _ w₁ hre (.enametoolong hnone hlen) (by rw [hv])
  rw [if_neg hlen]
  have hnames : name.length + 1 ≤ sfsNamelen := Nat.le_of_not_gt hlen
  have hfree := hs.free
  have hlast : r.emptyslot.getD ((vol w).slots d).length = ((vol w).slots d).length →
      ∀ j : Nat, ((vol w).slots d)[j]? ≠ some none := by
    intro he j hj
    cases hr : r.emptyslot with
    | none => exact hs.full hr j (List.getElem?_eq_some_iff.mp hj).1 hj
    | some k =>
      have := (hs.empty k hr).1
      rw [hr, Option.getD_some] at he
      omega
  -- the write into the slot that was chosen
  have hwrite (i : Nat) (hi : i = r.emptyslot.getD ((vol w).slots d).length) :
      (sfsWritedir d (SfsDir.mk' ino name) i >>= fun _ => pure i).wp Q w₁ := by
    rw [← hi] at hfree hlast
    have hle := hfree.le
    have hend : i = ((vol w).slots d).length →
        (((vol w).slots d).length + 1) * SfsDir.size ≤ dirLimit := fun hx =>
      hroom hnone hnames (hlast hx)
    rw [Vol.slots, Content.length_slots] at hle hend
    rw [Prog.wp_bind]
    refine wp_sfsWritedir h₁ (hv ▸ hd) (SfsDir.length_toBytes_mk' ino hnames) (by rwa [hv]) ?_ ?_ ?_
    · have hrange := hd.range
      simp only [SfsDir.size, Content.nentries] at hend hle hrange ⊢
      omega
    · intro w' hw' hslots
      rw [SfsDir.binding_mk' h0 hnames, hv] at hslots
      dsimp only
      rw [Prog.wp_pure]
      exact hok i w' ⟨hv ▸ hw'.worked, hc.trans hw'.calm, hw'.dir⟩ ⟨hnone, hnames, hfree, hlast⟩
        hslots
    · intro w' hend hw' hslots
      rw [hv] at hend hslots
      have hilen : i = ((vol w).slots d).length := by rw [Vol.slots, Content.length_slots, hend]
      exact herr _ w' ⟨hv ▸ hw'.worked, hc.trans hw'.calm, hw'.dir⟩
        (.enospc hnone (hlast hilen)) hslots
  cases hr : r.emptyslot with
  | some i =>
    dsimp only
    rw [Prog.wp_bind, Prog.wp_pure]
    exact hwrite i (by rw [hr]; rfl)
  | none =>
    dsimp only
    rw [Prog.wp_bind]
    refine wp_sfsDirNentries h₁ (hv ▸ hd) ?_
    rw [hv]
    exact hwrite _ (by rw [hr]; rfl)

/-- A name that is there is unlinked: its slot has a block. -/
theorem wp_sfsDirUnlink {Q : Post machine Unit} {a : UInt32} (h : Ready L d w)
    (hd : Dir d (vol w)) (hb : ((vol w).slots d).Binds i name a)
    (hok : ∀ w', Rewritten L d w w' → (vol w').slots d = ((vol w).slots d).put i none →
      Q.ok () w') :
    (sfsDirUnlink d i).wp Q w := by
  have hlt := hb.lt
  rw [Vol.slots, Content.length_slots] at hlt
  rw [sfsDirUnlink]
  refine wp_sfsWritedir h hd SfsDir.length_toBytes_free (Nat.le_of_lt hlt) ?_ hok ?_
  · have hrange := hd.range
    simp only [SfsDir.size, Content.nentries] at hlt ⊢
    omega
  · intro w' hend
    omega

end Entries

end Os161.Sfs

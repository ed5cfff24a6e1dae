import Os161.Sfs.TransferSpec

/-! # What `sfs_io` does

The loop over whole blocks and the partial blocks at both ends, the clipping at
the end of the file, and the new size. A failed transfer is described by what it
moved before. Negative offsets are accepted by the code and treated last. -/
namespace Os161.Sfs
open Os161.Lib Kern Vol

variable {L : UInt32 → Prop} {π : Perm} {w w' : World} {sv : Ptr} {src : List UInt8} {u : Uio}

/-! ## Steps and holes -/

theorem FileSteps.samePlaces {v v' : Vol} (h : Core L v) (hp : sv ∈ v.fs.sfsVnodes)
    (ha : ¬ π.alloc) (hs : FileSteps π sv v v') : SamePlaces sv v v' := by
  induction hs with
  | refl => exact fun _ _ _ => rfl
  | @tail b c hs hstep ih =>
    have hg := FileSteps.grown h hp hs
    have hp' : sv ∈ b.fs.sfsVnodes := by rw [hg.here.vnodes]; exact hp
    cases hstep with
    | plant ha' => exact absurd ha' ha
    | graft ha' => exact absurd ha' ha
    | put ha' => exact absurd ha' ha
    | leak hk hc =>
      intro s l hl
      have := leak_ref hg.core hp' hc (hg.core.live sv hp') s l hl
      rw [hg.here.ino_eq] at this
      rw [this, ih s l hl]

/-- As long as the vnode is clean the inode has its pointers. -/
theorem FileSteps.clean {v v' : Vol} (hs : FileSteps π sv v v')
    (hd : (v'.fs.heap sv).svDirty = false) :
    (v.fs.heap sv).svDirty = false ∧
      ∀ s, (v'.fs.heap sv).svI.root s = (v.fs.heap sv).svI.root s := by
  induction hs with
  | refl => exact ⟨hd, fun _ => rfl⟩
  | @tail b c hs hstep ih =>
    cases hstep with
    | plant => simp [Vol.plant] at hd
    | leak => simp [Vol.leak] at hd
    | graft =>
      simp only [Vol.graft, fs_setDisk, heap_modifyVnode, if_true, heap_alloc] at hd ⊢
      refine ⟨(ih hd).1, fun s => ?_⟩
      rw [← (ih hd).2 s]
      cases s <;> rfl
    | put => exact ih hd

/-- The transfer goes through this file block. -/
def Uio.Touches (u : Uio) (fb : Nat) : Prop := u.block ≤ fb ∧ fb * 512 < u.pos + u.uioResid

/-- The first hole the transfer meets is filled without the vnode becoming
dirty. -/
def QuietRange (v : Vol) (p : Ptr) (u : Uio) : Prop :=
  ∃ fb, u.Touches fb ∧ QuietHole v p fb ∧
    ∀ fb', u.Touches fb' → fb' < fb → v.fileBlock (v.ino p) fb' = 0 →
      15 ≤ fb' ∧ v.ref (v.ino p) (fbSlot fb') [] ≠ 0

/-- How a transfer fails. -/
def IoFails (w : World) (sv : Ptr) (u : Uio) (e : Errno) : Prop :=
  e = .eio ∧ w.env.readFaults ≠ [] ∨
  e = .efault ∧ u.iovMapped < u.iovPos + u.uioResid ∨
  e = .enospc ∧ (∃ fb, u.Touches fb ∧ (vol w).fileBlock ((vol w).ino sv) fb = 0 ∧
    (u.uioRw = .uioWrite ∨ HoleRead (vol w) ((vol w).ino sv) fb)) ∨
  e = .einval ∧ ∃ fb, u.Touches fb ∧ doubleLimit + 128 * 128 * 128 ≤ fb

/-- What a whole transfer needs and does. -/
structure IoSpec (π : Perm) (L : UInt32 → Prop) (sv : Ptr) (src : List UInt8) (u : Uio)
    (w : World) (Q : Post machine (Uio × Result)) : Prop where
  core : Core L (vol w)
  vnode : sv ∈ (vol w).fs.sfsVnodes
  writes : w.env.writeFaults = []
  sound : u.Sound src
  alloc : u.uioRw = .uioWrite ↔ π.alloc
  quiet : u.uioRw = .uioWrite → QuietRange (vol w) sv u → π.quiet
  leak : u.uioRw = .uioRead → ∀ fb, u.Touches fb → HoleRead (vol w) ((vol w).ino sv) fb → π.leak
  ok : ∀ l w', Moves π L sv src u w l w' → l.length = u.uioResid → Q.ok (u.advance l, none) w'
  fail : ∀ l w' e, Moves π L sv src u w l w' → IoFails w sv u e → Q.ok (u.advance l, some e) w'
  stopped : ∀ m w', (∃ fb, u.Touches fb ∧ bufferLimit ≤ fb) → Q.stopped (.blockbufIndex m) w'

section Io

variable {Q R : Post machine (Uio × Result)} {l : List UInt8}

theorem SamePlaces.holeRead {v v' : Vol} {i : UInt32} {fb : Nat} (hi : i = v.ino sv)
    (h : SamePlaces sv v v') (hr : HoleRead v' i fb) : HoleRead v i fb := by
  subst hi
  unfold HoleRead at hr ⊢
  split at hr
  · next s l hf =>
    have hl := fbPath_length hf
    rw [h s [] (Nat.zero_le _), h s _ (by rw [List.length_dropLast]; omega)] at hr
    exact hr
  · rwa [h .triple [] (Nat.zero_le _)] at hr

/-- Filling a hole quietly now means that the transfer fills its first hole
quietly. -/
theorem Moves.quietRange (hs : u.Sound src) (hcore : Core L (vol w))
    (hsv : sv ∈ (vol w).fs.sfsVnodes) (hw : u.uioRw = .uioWrite)
    (hm : Moves π L sv src u w l w') (ht : u.Touches (u.advance l).block)
    (hq : QuietHole (vol w') sv (u.advance l).block) : QuietRange (vol w) sv u := by
  obtain ⟨hd, hfb, hlim, hroot, hhole⟩ := hq
  have hino := hm.grown.here.ino_eq
  have hsv' : sv ∈ (vol w').fs.sfsVnodes := by rw [hm.grown.here.vnodes]; exact hsv
  obtain ⟨hd₀, hroots⟩ := hm.steps.clean hd
  have hsame (s : Slot) : (vol w').ref ((vol w).ino sv) s [] =
    (vol w).ref ((vol w).ino sv) s [] := by
    rw [ref_nil, ref_nil, hcore.inode_eq hsv, hm.grown.here.inode_self hcore.toTable hsv, hroots]
  rw [hino] at hroot hhole
  refine ⟨_, ht, ⟨hd₀, hfb, hlim, hsame _ ▸ hroot, ?_⟩, ?_⟩
  · by_contra h0
    exact hm.grown.fileBlock_ne_zero h0 hhole
  · intro fb' ht' hlt h0
    -- an earlier block has been written, so it has a place now
    have hpos := hs.pos_advance hm.high
    have hblk : (u.advance l).block = (u.pos + l.length) / 512 := by rw [Uio.block, hpos]
    have hb' := ht'.1
    have hmap := hm.mapped hw (max u.pos (fb' * 512)) (by omega) (by unfold Uio.block at hb'; omega)
    have hdiv : max u.pos (fb' * 512) / 512 = fb' := by
      unfold Uio.block at hb'
      omega
    rw [hdiv] at hmap
    obtain ⟨s, m, hf, hb⟩ := path_of_fileBlock hmap
    rw [hb] at hmap
    have hs' := fbSlot_of_path hf
    have hne : (vol w).ref ((vol w).ino sv) (fbSlot fb') [] ≠ 0 := by
      rw [hs', ← hsame]
      exact ref_ne_zero_of_append (l := []) hmap
    refine ⟨?_, hne⟩
    by_contra hsmall
    have hdir : fbPath fb' = some (.direct ⟨fb', by omega⟩, []) := by
      unfold fbPath
      rw [dif_pos (by omega)]
    rw [fileBlock_of_path hdir] at h0
    rw [hdir] at hf
    cases hf
    exact hne (hs' ▸ h0)

/-- One block within a transfer. -/
theorem IoSpec.block {n : Nat} (h : IoSpec π L sv src u w Q) (hm : Moves π L sv src u w l w')
    (hn : l.length + n ≤ u.uioResid) (ht : u.Touches (u.advance l).block)
    (hok : ∀ l' w'', Moves π L sv src u w (l ++ l') w'' → l'.length = n →
      R.ok (u.advance (l ++ l'), none) w'')
    (hfail : ∀ l' w'' e, Moves π L sv src u w l' w'' → IoFails w sv u e →
      R.ok (u.advance l', some e) w'')
    (hstop : ∀ m w'', (∃ fb, u.Touches fb ∧ bufferLimit ≤ fb) → R.stopped (.blockbufIndex m) w'') :
    BlockSpec π L sv src (u.advance l) w' n R := by
  have hs := h.sound
  have hsv' : sv ∈ (vol w').fs.sfsVnodes := by rw [hm.grown.here.vnodes]; exact h.vnode
  have hino := hm.grown.here.ino_eq
  have hres := hs.resid_advance hm.fits
  have hread (hr : u.uioRw = .uioRead) : SamePlaces sv (vol w) (vol w') := by
    refine hm.steps.samePlaces h.core h.vnode fun ha => ?_
    have := h.alloc.mpr ha
    rw [hr] at this
    cases this
  refine ⟨hm.grown.core, hsv', hm.calm.writes h.writes, hs.advance hm.fits hm.high, by omega,
    h.alloc.mp, ?_, ?_, ?_, ?_, ?_⟩
  · exact fun hw hq => h.quiet hw (hm.quietRange hs h.core h.vnode hw ht hq)
  · intro hr hhole
    rw [hino] at hhole
    exact h.leak hr _ ht ((hread hr).holeRead rfl hhole)
  · intro l' w'' hm' hlen
    have hmm := hm.trans hs hm'
    have hhigh := hm'.high
    rw [hs.pos_advance hm.high] at hhigh
    rw [hs.advance_advance hm.fits hm.high (by omega) hhigh]
    exact hok l' w'' hmm hlen
  · intro l' w'' e hm' hlen _ he
    have hmm := hm.trans hs hm'
    have hhigh := hm'.high
    rw [hs.pos_advance hm.high] at hhigh
    rw [hs.advance_advance hm.fits hm.high (by omega) hhigh]
    refine hfail _ w'' e hmm ?_
    rcases he with (he | ⟨rfl, hbig⟩) | ⟨rfl, hmap⟩
    · rcases he with ⟨rfl, hreads⟩ | ⟨rfl, h0, hwhy⟩
      · exact .inl ⟨rfl, fun h1 => hreads (hm.calm.reads h1)⟩
      · refine .inr (.inr (.inl ⟨rfl, _, ht, ?_, ?_⟩))
        · rw [hino] at h0
          by_contra hne
          exact hm.grown.fileBlock_ne_zero hne h0
        · rcases hwhy with hw | hhole
          · exact .inl (of_decide_eq_true hw)
          · by_cases hw : u.uioRw = .uioWrite
            · exact .inl hw
            · rw [hino] at hhole
              exact .inr ((hread (UioRw.not_write.mp hw)).holeRead rfl hhole)
    · exact .inr (.inr (.inr ⟨rfl, _, ht, hbig⟩))
    · refine .inr (.inl ⟨rfl, ?_⟩)
      have h1 : (u.advance l).iovPos = u.iovPos + l.length := rfl
      have h2 : (u.advance l).iovMapped = u.iovMapped := rfl
      rw [h1, h2] at hmap
      omega
  · exact fun m w'' hb => hstop m w'' ⟨_, ht, hb⟩

theorem wp_sfsIo_blocks (h : IoSpec π L sv src u w Q)
    (hfail : ∀ l' w'' e, Moves π L sv src u w l' w'' → IoFails w sv u e →
      R.ok (u.advance l', some e) w'')
    (hstop : ∀ m w'', (∃ fb, u.Touches fb ∧ bufferLimit ≤ fb) → R.stopped (.blockbufIndex m) w'') :
    ∀ (n : Nat) (l : List UInt8) (w' : World), Moves π L sv src u w l w' →
      (u.pos + l.length) % 512 = 0 → l.length + n * 512 ≤ u.uioResid →
      (∀ l' w'', Moves π L sv src u w l' w'' → l'.length = l.length + n * 512 →
        R.ok (u.advance l', none) w'') →
      (sfsIo.blocks sv n (u.advance l)).wp R w' := by
  intro n
  induction n with
  | zero =>
    intro l w' hm _ _ hok
    have := hok l w' hm (by omega)
    simpa only [sfsIo.blocks, Prog.wp_pure] using this
  | succ n ih =>
    intro l w' hm hal hn hok
    have hpos := h.sound.pos_advance hm.high
    have ht : u.Touches (u.advance l).block := by
      rw [Uio.Touches, Uio.block, Uio.block, hpos]
      omega
    rw [sfsIo.blocks, Prog.wp_bind]
    refine wp_sfsBlockio (h.block hm (by omega) ht ?_ ?_ hstop) (by rw [hpos]; exact hal)
    · intro l' w'' hm' hlen
      have hll : (l ++ l').length = l.length + 512 := by rw [List.length_append, hlen]
      refine ih (l ++ l') w'' hm' (by omega) (by omega) ?_
      intro l'' w₃ hm'' hlen'
      exact hok l'' w₃ hm'' (by omega)
    · intro l' w'' e hm' he
      simp only [Prog.wp_pure]
      exact hfail l' w'' e hm' he

theorem wp_sfsIo_aligned (h : IoSpec π L sv src u w Q) (hm : Moves π L sv src u w l w')
    (hal : l.length < u.uioResid → (u.pos + l.length) % 512 = 0) :
    (sfsIo.aligned sv (u.advance l)).wp Q w' := by
  have hs := h.sound
  have hres := hs.resid_advance hm.fits
  have hpos := hs.pos_advance hm.high
  have hfit := hm.fits
  rw [sfsIo.aligned]
  by_cases h0 : (u.advance l).uioResid = 0
  · rw [if_pos h0]
    simp only [Prog.wp_pure]
    exact h.ok l w' hm (by omega)
  · have hal' := hal (by omega)
    have hmod : ¬ (u.advance l).uioOffset.tmod sfsBlocksize ≠ 0 := by
      rw [hs.offset_advance hm.high, Int.tmod_eq_emod_of_nonneg (by omega)]
      simp only [sfsBlocksize]
      omega
    rw [if_neg h0, if_neg hmod, hres]
    dsimp only
    rw [Prog.wp_bind]
    refine wp_sfsIo_blocks h ?_ ?_ _ l w' hm hal' ?_ ?_
    · intro l' w'' e hm' he
      simp only [Prog.wp_pure]
      exact h.fail l' w'' e hm' he
    · exact h.stopped
    · simp only [sfsBlocksize]
      omega
    · intro l' w'' hm' hlen
      simp only [sfsBlocksize] at hlen ⊢
      have hres' := hs.resid_advance hm'.fits
      have hpos' := hs.pos_advance hm'.high
      rw [if_neg (by omega)]
      by_cases h1 : (u.advance l').uioResid > 0
      · rw [if_pos h1]
        have ht : u.Touches (u.advance l').block := by
          rw [Uio.Touches, Uio.block, Uio.block, hpos']
          omega
        refine wp_sfsPartialio (h.block hm' (by omega) ht ?_ ?_ h.stopped) (by omega) (by omega)
        · intro l'' w₃ hm'' hlen'
          exact h.ok _ w₃ hm'' (by rw [List.length_append]; omega)
        · exact h.fail
      · rw [if_neg h1]
        simp only [Prog.wp_pure]
        exact h.ok l' w'' hm' (by omega)

/-- The first block. -/
theorem IoSpec.block_first {n : Nat} (h : IoSpec π L sv src u w Q) (hn : n ≤ u.uioResid)
    (ht : u.Touches u.block)
    (hok : ∀ l' w'', Moves π L sv src u w l' w'' → l'.length = n → R.ok (u.advance l', none) w'')
    (hfail : ∀ l' w'' e, Moves π L sv src u w l' w'' → IoFails w sv u e →
      R.ok (u.advance l', some e) w'')
    (hstop : ∀ m w'', (∃ fb, u.Touches fb ∧ bufferLimit ≤ fb) → R.stopped (.blockbufIndex m) w'') :
    BlockSpec π L sv src u w n R := by
  have hs := h.sound
  have hspec := h.block (n := n) (l := []) (R := R) (Moves.nil π h.core hs)
    (by rw [List.length_nil]; omega) (by rwa [hs.advance_nil]) (fun l' w'' hm hl => ?_) hfail hstop
  · rwa [hs.advance_nil] at hspec
  · rw [List.nil_append] at hm ⊢
    exact hok l' w'' hm hl

theorem wp_sfsIo_body (h : IoSpec π L sv src u w Q) : (sfsIo.body sv u).wp Q w := by
  have hs := h.sound
  have hnil : Moves π L sv src u w [] w := Moves.nil π h.core hs
  have hb : u32 (u.uioOffset.tmod sfsBlocksize) = u.pos % 512 := hs.tmod
  rw [sfsIo.body, hb]
  by_cases h0 : u.pos % 512 ≠ 0
  · rw [if_pos h0]
    have hlen : min (u32 (((sfsBlocksize : Nat) : Int) - ((u.pos % 512 : Nat) : Int))) u.uioResid =
        min (512 - u.pos % 512) u.uioResid := by
      rw [u32_eq (by simp only [sfsBlocksize]; omega) (by simp only [sfsBlocksize]; omega)]
      simp only [sfsBlocksize]
      omega
    dsimp only
    rw [hlen, Prog.wp_bind]
    have ht : u.Touches u.block := by
      rw [Uio.Touches, Uio.block]
      omega
    refine wp_sfsPartialio (h.block_first (by omega) ht ?_ ?_ h.stopped) rfl (by omega)
    · intro l' w'' hm' hl'
      refine wp_sfsIo_aligned h hm' ?_
      omega
    · intro l' w'' e hm' he
      simp only [Prog.wp_pure]
      exact h.fail l' w'' e hm' he
  · rw [if_neg h0]
    have := wp_sfsIo_aligned (l := []) h hnil (by rw [List.length_nil]; omega)
    rwa [hs.advance_nil] at this

end Io

/-! ## The whole of `sfs_io` -/

/-- The size of the file in `p` as `off_t`. -/
def Vol.size (v : Vol) (p : Ptr) : Int := i32 (v.fs.heap p).svI.sfiSize.toNat

/-- The file in `p` reaches to `o` at least. -/
def Vol.extend (v : Vol) (p : Ptr) (o : Int) : Vol :=
  if o > v.size p then v.touch p fun i => { i with sfiSize := UInt32.ofNat (u32 o) } else v

/-- The uio without what lies beyond the end of the file. -/
def Uio.clip (u : Uio) (size : Int) : Uio :=
  if u.uioRw = .uioRead ∧ i32 (u.uioOffset + u.uioResid) > size then
    { u with uioResid := u.uioResid - u32 (i32 (u.uioOffset + u.uioResid) - size) }
  else u

/-- A transfer together with the new size of the file. -/
def Transferred (π : Perm) (L : UInt32 → Prop) (sv : Ptr) (src : List UInt8) (u : Uio) (w : World)
    (l : List UInt8) (w' : World) : Prop :=
  ∃ w₁, Moves π L sv src u w l w₁ ∧ Calm w₁ w' ∧ vol w' =
    if u.uioRw = .uioWrite then (vol w₁).extend sv (u.pos + l.length : Nat) else vol w₁

/-- What `sfs_io` needs and does at a position of the file. -/
structure SfsIoSpec (π : Perm) (L : UInt32 → Prop) (sv : Ptr) (src : List UInt8) (u : Uio)
    (w : World) (Q : Post machine (Uio × Result)) : Prop where
  core : Core L (vol w)
  vnode : sv ∈ (vol w).fs.sfsVnodes
  writes : w.env.writeFaults = []
  sound : u.Sound src
  alloc : u.uioRw = .uioWrite ↔ π.alloc
  quiet : u.uioRw = .uioWrite → QuietRange (vol w) sv u → π.quiet
  leak : u.uioRw = .uioRead → u.uioOffset < (vol w).size sv →
    ∀ fb, (u.clip ((vol w).size sv)).Touches fb → HoleRead (vol w) ((vol w).ino sv) fb → π.leak
  eof : u.uioRw = .uioRead → (vol w).size sv ≤ u.uioOffset → Q.ok (u, none) w
  ok : ∀ l w', (u.uioRw = .uioRead → u.uioOffset < (vol w).size sv) →
    Transferred π L sv src u w l w' → l.length = (u.clip ((vol w).size sv)).uioResid →
    Q.ok (u.advance l, none) w'
  fail : ∀ l w' e, Transferred π L sv src u w l w' →
    IoFails w sv (u.clip ((vol w).size sv)) e → Q.ok (u.advance l, some e) w'
  stopped : ∀ m w', (∃ fb, (u.clip ((vol w).size sv)).Touches fb ∧ bufferLimit ≤ fb) →
    Q.stopped (.blockbufIndex m) w'

section Whole

variable {Q : Post machine (Uio × Result)} {l : List UInt8}

theorem Uio.clip_write {size : Int} (hw : u.uioRw = .uioWrite) : u.clip size = u := by
  rw [Uio.clip, if_neg]
  intro hx
  obtain ⟨hr, -⟩ := hx
  rw [hw] at hr
  cases hr

/-- What is clipped off a read that starts within the file. -/
theorem Uio.Sound.extra {z : Int} (hs : u.Sound src) (hsz : z < 2 ^ 31)
    (hlt : u.uioOffset < z) (hend : i32 (u.uioOffset + u.uioResid) > z) :
    u32 (i32 (u.uioOffset + u.uioResid) - z) < u.uioResid ∧
      (u.uioResid - u32 (i32 (u.uioOffset + u.uioResid) - z) : Int) = z - u.uioOffset := by
  have hlow := hs.low
  have hhigh := hs.high
  have hsmall := hs.small
  unfold i32 at hend ⊢
  split at hend
  · rw [if_pos ‹_›, u32_eq (by omega) (by omega)]
    omega
  · omega

/-- Clipping leaves the position and the memory alone. -/
theorem Moves.unclip {size : Int} (h : Moves π L sv src (u.clip size) w l w') :
    Moves π L sv src u w l w' := by
  rw [Uio.clip] at h
  split at h
  · exact ⟨h.calm, h.grown, h.steps, Nat.le_trans h.fits (Nat.sub_le _ _), h.high, h.got, h.same,
      h.put, h.wrote, h.mapped⟩
  · exact h

theorem i32_lt (x : Int) : i32 x < 2 ^ 31 := by
  unfold i32
  split <;> omega

/-- The end of `sfs_io`: the new size, and what was clipped off comes back. -/
theorem wp_sfsIo_out {u' : Uio} {extra : Nat} {r : Result}
    (hok : ∀ w', Calm w w' → vol w' =
      (if u'.uioRw = .uioWrite then (vol w).extend sv u'.uioOffset else vol w) →
      Q.ok ({ u' with uioResid := u32 ((u'.uioResid : Int) + extra) }, r) w') :
    (sfsIo.out sv u' extra r).wp Q w := by
  rw [sfsIo.out, Prog.wp_bind, wp_getVnode]
  dsimp only
  split
  · next hc =>
    simp only [Prog.wp_bind, wp_modifyInode, wp_setDirty, Prog.wp_pure]
    refine hok _ ⟨id, id, id⟩ ?_
    have hgt : u'.uioOffset > (vol w).size sv := hc.2
    rw [if_pos hc.1, Vol.extend, if_pos hgt, vol_mk]
    simp only [modifyInode_eq, modifyVnode_modifyVnode]
    rfl
  · next hc =>
    simp only [Prog.wp_pure]
    refine hok w (.refl w) ?_
    split
    · next hw =>
      have hgt : ¬ u'.uioOffset > (vol w).size sv := fun hg => hc ⟨hw, hg⟩
      rw [Vol.extend, if_neg hgt]
    · rfl

/-- The part of `sfs_io` that moves data, followed by its end. -/
theorem wp_sfsIo_run {extra : Nat} {c : Uio} (h : SfsIoSpec π L sv src u w Q)
    (hc : c = u.clip ((vol w).size sv)) (hce : c = { u with uioResid := u.uioResid - extra })
    (hex : extra ≤ u.uioResid) (hlt : u.uioRw = .uioRead → u.uioOffset < (vol w).size sv) :
    (sfsIo.body sv c >>= fun x => sfsIo.out sv x.1 extra x.2).wp Q w := by
  have hs := h.sound
  have hsmall := hs.small
  have hrw : c.uioRw = u.uioRw := by rw [hce]
  have hpos : c.pos = u.pos := by rw [hce]; rfl
  have hcs : c.Sound src := by
    have hroom := hs.room
    have henough := hs.enough
    rw [hce]
    exact ⟨hs.base, by simp only; omega, by simp only; omega,
      fun hw => by have := henough hw; simp only; omega, hs.low, hs.high⟩
  have hadv {l : List UInt8} (hl : l.length ≤ c.uioResid) :
      { c.advance l with uioResid := u32 (((c.advance l).uioResid : Int) + extra) } =
        u.advance l := by
    have hr := hcs.resid_advance hl
    rw [hce] at hr hl ⊢
    simp only at hl
    have hr' := hs.resid_advance (l := l) (by omega)
    ext1
    · rfl
    · rfl
    · rfl
    · rfl
    · rfl
    · rfl
    · rw [hr', hr]
      simp only
      rw [u32_eq (by omega) (by omega)]
      omega
    · rfl
  have hdone (l : List UInt8) (w₁ w₂ : World) (hm : Moves π L sv src c w l w₁) (hc₂ : Calm w₁ w₂)
      (hv : vol w₂ = if (c.advance l).uioRw = .uioWrite then
        (vol w₁).extend sv (c.advance l).uioOffset else vol w₁) :
      Transferred π L sv src u w l w₂ := by
    rw [hc] at hm
    have hm' := hm.unclip
    refine ⟨w₁, hm', hc₂, ?_⟩
    rw [hv, hcs.offset_advance (by rw [hpos]; exact hm'.high), hpos]
    have : (c.advance l).uioRw = u.uioRw := hrw
    rw [this]
  rw [Prog.wp_bind]
  refine wp_sfsIo_body (π := π) (L := L) ⟨h.core, h.vnode, h.writes, hcs, ?_, ?_, ?_,
    ?_, ?_, ?_⟩
  · rw [hrw]
    exact h.alloc
  · intro hw hq
    rw [hrw] at hw
    rw [hc, Uio.clip_write hw] at hq
    exact h.quiet hw hq
  · intro hr fb ht hh
    rw [hrw] at hr
    rw [hc] at ht
    exact h.leak hr (hlt hr) fb ht hh
  · intro l w₁ hm hlen
    refine wp_sfsIo_out fun w₂ hc₂ hv => ?_
    rw [hadv hm.fits]
    exact h.ok l w₂ hlt (hdone l w₁ w₂ hm hc₂ hv) (hc ▸ hlen)
  · intro l w₁ e hm he
    refine wp_sfsIo_out fun w₂ hc₂ hv => ?_
    rw [hadv hm.fits]
    exact h.fail l w₂ e (hdone l w₁ w₂ hm hc₂ hv) (hc ▸ he)
  · intro m w₁ hfb
    exact h.stopped m w₁ (hc ▸ hfb)

theorem wp_sfsIo (h : SfsIoSpec π L sv src u w Q) : (sfsIo sv u).wp Q w := by
  have hs := h.sound
  rw [sfsIo, Prog.wp_bind, wp_getVnode]
  have hsize : i32 (w.st.fs.heap sv).svI.sfiSize.toNat = (vol w).size sv := rfl
  dsimp only
  rw [hsize]
  by_cases heof : u.uioRw = .uioRead ∧ u.uioOffset ≥ (vol w).size sv
  · rw [if_pos heof]
    simpa only [Prog.wp_pure] using h.eof heof.1 heof.2
  · rw [if_neg heof]
    have hlt (hr : u.uioRw = .uioRead) : u.uioOffset < (vol w).size sv := by
      by_contra hge
      exact heof ⟨hr, by omega⟩
    by_cases hend : u.uioRw = .uioRead ∧ i32 (u.uioOffset + u.uioResid) > (vol w).size sv
    · have hx1 := (hs.extra (z := (vol w).size sv) (i32_lt _) (hlt hend.1) hend.2).1
      rw [if_pos hend, if_pos hx1]
      refine wp_sfsIo_run h ?_ rfl (Nat.le_of_lt hx1) hlt
      rw [Uio.clip, if_pos hend]
    · rw [if_neg hend]
      refine wp_sfsIo_run h ?_ rfl (Nat.zero_le _) hlt
      rw [Uio.clip, if_neg hend]

end Whole

end Os161.Sfs

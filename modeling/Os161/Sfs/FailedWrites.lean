import Os161.Sfs.FileArray

/-! # Failing writes

What a write that fails leaves behind when no write of the device fails: the bytes up to the final
offset are stored, and the size is right unless it was the first block that failed. -/
namespace Os161.Sfs
open Os161.Lib Kern Vol

variable {L : UInt32 → Prop} {π : Perm} {w w' : World} {sv : Ptr} {src l : List UInt8} {u : Uio}

/-! ## The first block of a transfer -/

/-- What `sfs_io` does first. -/
def firstBlock (sv : Ptr) (uio : Uio) : Kern (Uio × Result) :=
  let blkoff := u32 (uio.uioOffset.tmod sfsBlocksize)
  if blkoff ≠ 0 then
    sfsPartialio sv uio blkoff (min (u32 ((sfsBlocksize : Int) - blkoff)) uio.uioResid)
  else if uio.uioResid ≥ sfsBlocksize then sfsBlockio sv uio
  else if uio.uioResid > 0 then sfsPartialio sv uio 0 uio.uioResid
  else pure (uio, none)

/-- The transfer fails in its first block. -/
def FirstFails (sv : Ptr) (u : Uio) (w : World) : Prop :=
  ∃ u' e w', (firstBlock sv u).run machine w = (.ok (u', some e), w')

/-- How far the first block goes. -/
def Uio.firstLen (u : Uio) : Nat := min (512 - u.pos % 512) u.uioResid

theorem wp_firstBlock {Q : Post machine (Uio × Result)}
    (h : BlockSpec π L sv src u w u.firstLen Q) : (firstBlock sv u).wp Q w := by
  have hs := h.sound
  have hb : u32 (u.uioOffset.tmod sfsBlocksize) = u.pos % 512 := hs.tmod
  have hn : u.firstLen = min (512 - u.pos % 512) u.uioResid := rfl
  rw [firstBlock, hb]
  by_cases h0 : u.pos % 512 ≠ 0
  · have hlen : min (u32 (((sfsBlocksize : Nat) : Int) - ((u.pos % 512 : Nat) : Int))) u.uioResid =
        u.firstLen := by
      rw [u32_eq (by simp only [sfsBlocksize]; omega) (by simp only [sfsBlocksize]; omega)]
      simp only [sfsBlocksize]
      omega
    rw [if_pos h0, hlen]
    exact wp_sfsPartialio h rfl (by omega)
  · rw [if_neg h0]
    by_cases h1 : u.uioResid ≥ sfsBlocksize
    · rw [if_pos h1]
      have he : u.firstLen = 512 := by
        simp only [sfsBlocksize] at h1
        omega
      exact wp_sfsBlockio (he ▸ h) (by omega)
    · rw [if_neg h1]
      simp only [sfsBlocksize] at h1
      have he : u.firstLen = u.uioResid := by omega
      by_cases h2 : u.uioResid > 0
      · rw [if_pos h2]
        exact wp_sfsPartialio (he ▸ h) (by omega) (by omega)
      · rw [if_neg h2, Prog.wp_pure]
        have := h.ok [] w (Moves.nil π h.core hs) (by rw [List.length_nil]; omega)
        rwa [hs.advance_nil] at this

/-- `sfs_io` goes on behind the first block as it would start there. -/
theorem wp_body_of_first {Q : Post machine (Uio × Result)} (hs : u.Sound src)
    (h : (firstBlock sv u).wp ⟨fun x w' => (∀ e, x.2 = some e → Q.ok x w') ∧
      (x.2 = none → x.1.uioResid = u.uioResid - u.firstLen ∧
        (0 < x.1.uioResid → x.1.uioOffset.tmod sfsBlocksize = 0) ∧
        (sfsIo.aligned sv x.1).wp Q w'), Q.err, Q.stopped⟩ w) :
    (sfsIo.body sv u).wp Q w := by
  have hb : u32 (u.uioOffset.tmod sfsBlocksize) = u.pos % 512 := hs.tmod
  have hn : u.firstLen = min (512 - u.pos % 512) u.uioResid := rfl
  rw [firstBlock, hb] at h
  rw [sfsIo.body, hb]
  dsimp only at h ⊢
  by_cases h0 : u.pos % 512 ≠ 0
  · rw [if_pos h0] at h ⊢
    rw [Prog.wp_bind]
    refine h.mono ?_ (fun _ _ he => he) fun _ _ he => he
    intro hx w' hy
    obtain ⟨u', r⟩ := hx
    obtain ⟨hfail, hok⟩ := hy
    cases r with
    | some e =>
      dsimp only
      rw [Prog.wp_pure]
      exact hfail e rfl
    | none => exact (hok rfl).2.2
  · rw [if_neg h0] at h ⊢
    have hmod : u.uioOffset.tmod sfsBlocksize = 0 := by
      rw [hs.offset_eq, Int.tmod_eq_emod_of_nonneg (by omega)]
      simp only [sfsBlocksize]
      omega
    by_cases h1 : u.uioResid ≥ sfsBlocksize
    · rw [if_pos h1] at h
      simp only [sfsBlocksize] at h1
      have hne : ¬ u.uioResid = 0 := by omega
      rw [sfsIo.aligned, if_neg hne, if_neg (not_not.mpr hmod)]
      dsimp only
      obtain ⟨k, hk⟩ : ∃ k, u.uioResid / sfsBlocksize = k + 1 :=
        ⟨u.uioResid / 512 - 1, by simp only [sfsBlocksize]; omega⟩
      simp only [sfsBlocksize] at hk
      rw [sfsBlocksize, hk, sfsIo.blocks]
      simp only [Prog.wp_bind]
      refine h.mono ?_ (fun _ _ he => he) fun _ _ he => he
      intro hx w' hy
      obtain ⟨u', r⟩ := hx
      obtain ⟨hfail, hok⟩ := hy
      cases r with
      | some e =>
        simp only [Prog.wp_pure]
        exact hfail e rfl
      | none =>
        obtain ⟨hres, hal, hgo⟩ := hok rfl
        dsimp only at hres hal hgo ⊢
        rw [sfsIo.aligned] at hgo
        by_cases hr0 : u'.uioResid = 0
        · obtain rfl : k = 0 := by omega
          rw [if_pos hr0, Prog.wp_pure] at hgo
          rw [sfsIo.blocks, Prog.wp_pure]
          dsimp only
          rw [if_neg (by omega), if_neg (by omega), Prog.wp_pure]
          exact hgo
        · have hk' : u'.uioResid / sfsBlocksize = k := by
            simp only [sfsBlocksize]
            omega
          rw [if_neg hr0, if_neg (not_not.mpr (hal (by omega)))] at hgo
          dsimp only at hgo
          rw [hk', Prog.wp_bind] at hgo
          exact hgo
    · rw [if_neg h1] at h
      simp only [sfsBlocksize] at h1
      by_cases h2 : u.uioResid > 0
      · have hk : u.uioResid / sfsBlocksize = 0 := by
          simp only [sfsBlocksize]
          omega
        rw [if_pos h2] at h
        rw [sfsIo.aligned, if_neg (by omega), if_neg (not_not.mpr hmod)]
        dsimp only
        rw [hk, sfsIo.blocks, Prog.wp_bind, Prog.wp_pure]
        dsimp only
        rw [if_neg (by simp only [sfsBlocksize]; omega), if_pos h2]
        refine h.mono ?_ (fun _ _ he => he) fun _ _ he => he
        intro hx w' hy
        obtain ⟨u', r⟩ := hx
        obtain ⟨hfail, hok⟩ := hy
        cases r with
        | some e => exact hfail e rfl
        | none =>
          obtain ⟨hres, -, hgo⟩ := hok rfl
          dsimp only at hres hgo
          rw [sfsIo.aligned, if_pos (by omega), Prog.wp_pure] at hgo
          exact hgo
      · rw [if_neg h2, Prog.wp_pure] at h
        exact (h.2 rfl).2.2

section Write

variable {Q : Post machine (Uio × Result)}

/-- A write, by whether its first block fails. -/
theorem wp_sfsIo_write (hcore : Core L (vol w)) (hsv : sv ∈ (vol w).fs.sfsVnodes)
    (hwrites : w.env.writeFaults = []) (hs : u.Sound src) (hw : u.uioRw = .uioWrite)
    (hfirst : ∀ w' e, FirstFails sv u w →
      Transferred ⟨True, True, True⟩ L sv src u w [] w' → Q.ok (u, some e) w')
    (hlater : ∀ l w' e, ¬ FirstFails sv u w → l ≠ [] →
      Transferred ⟨True, True, True⟩ L sv src u w l w' → Q.ok (u.advance l, some e) w')
    (hok : ¬ FirstFails sv u w → ∀ x w', Q.ok (x, none) w')
    (hstop : ¬ FirstFails sv u w → ∀ m w', Q.stopped m w') : (sfsIo sv u).wp Q w := by
  have hnr : ¬ u.uioRw = .uioRead := UioRw.not_read.mpr hw
  have hnil : Moves ⟨True, True, True⟩ L sv src u w [] w := Moves.nil _ hcore hs
  have hn : u.firstLen = min (512 - u.pos % 512) u.uioResid := rfl
  have hout (l : List UInt8) (w₁ : World) (e : Errno)
      (hm : Moves ⟨True, True, True⟩ L sv src u w l w₁)
      (hend : ∀ w₂, Transferred ⟨True, True, True⟩ L sv src u w l w₂ →
        Q.ok (u.advance l, some e) w₂) : (sfsIo.out sv (u.advance l) 0 (some e)).wp Q w₁ := by
    refine wp_sfsIo_out fun w₂ hc hv => ?_
    have hres : u32 (((u.advance l).uioResid : Int) + (0 : Nat)) = (u.advance l).uioResid := by
      have := (hs.advance hm.fits hm.high).small
      rw [u32_eq (by omega) (by omega)]
      omega
    rw [hres]
    refine hend w₂ ⟨w₁, hm, hc, ?_⟩
    rw [hv, hs.offset_advance hm.high]
    rfl
  rw [sfsIo, Prog.wp_bind, wp_getVnode]
  dsimp only
  rw [if_neg fun h => hnr h.1, if_neg fun h => hnr h.1, Prog.wp_bind]
  refine wp_body_of_first hs ?_
  have hspec : (firstBlock sv u).wp ⟨fun x w₁ =>
      (∀ e, x.2 = some e → x.1 = u ∧ Moves ⟨True, True, True⟩ L sv src u w [] w₁) ∧
        (x.2 = none → ∃ l, x.1 = u.advance l ∧ l.length = u.firstLen ∧
          Moves ⟨True, True, True⟩ L sv src u w l w₁), fun _ _ => False, fun _ _ => True⟩ w := by
    refine wp_firstBlock (π := ⟨True, True, True⟩) (L := L) ⟨hcore, hsv, hwrites, hs,
      Nat.min_le_right _ _, fun _ => trivial, fun _ _ => trivial, fun _ _ => trivial, ?_, ?_,
      fun _ _ _ => trivial⟩
    · intro l w₁ hm hl
      exact ⟨fun _ he => (by cases he), fun _ => ⟨l, rfl, hl, hm⟩⟩
    · intro l w₁ e hm _ hl _
      obtain rfl := hl hw
      rw [hs.advance_nil]
      exact ⟨fun _ _ => ⟨rfl, hm⟩, fun he => (by cases he)⟩
  have hother {o : Outcome kernSig (Uio × Result)} {w₁ : World}
      (hr : (firstBlock sv u).run machine w = (o, w₁)) (ho : ∀ x e, o ≠ .ok (x, some e)) :
      ¬ FirstFails sv u w := by
    intro hx
    obtain ⟨u', e, w₂, he⟩ := hx
    rw [hr] at he
    exact ho u' e (congrArg Prod.fst he)
  refine hspec.ran.mono ?_ (fun _ _ h => absurd h.2 id)
    fun m w₁ h => hstop (hother h.1 fun _ _ he => by cases he) m w₁
  intro hx w₁ hy
  obtain ⟨u', r⟩ := hx
  obtain ⟨hr, hfail, hgood⟩ := hy
  refine ⟨fun e he => ?_, fun he => ?_⟩
  · obtain ⟨rfl, hm⟩ := hfail e he
    obtain rfl : r = some e := he
    have := hout [] w₁ e hm fun w₂ ht => by
      rw [hs.advance_nil]
      exact hfirst w₂ e ⟨u', e, w₁, hr⟩ ht
    rwa [hs.advance_nil] at this
  · obtain ⟨l, rfl, hl, hm⟩ := hgood he
    obtain rfl : r = none := he
    have hnot := hother hr fun _ _ he => by cases he
    have hs' := hs.advance hm.fits hm.high
    have hres := hs.resid_advance hm.fits
    have hpos := hs.pos_advance hm.high
    have hsv₁ : sv ∈ (vol w₁).fs.sfsVnodes := by rw [hm.grown.here.vnodes]; exact hsv
    have hal (h0 : 0 < (u.advance l).uioResid) : (u.pos + l.length) % 512 = 0 := by omega
    refine ⟨by rw [← hl]; exact hres, fun h0 => ?_, ?_⟩
    · have := hal h0
      rw [hs.offset_advance hm.high, Int.tmod_eq_emod_of_nonneg (by omega)]
      simp only [sfsBlocksize]
      omega
    · by_cases h0 : (u.advance l).uioResid = 0
      · rw [sfsIo.aligned, if_pos h0, Prog.wp_pure]
        exact wp_sfsIo_out fun w₂ _ _ => hok hnot _ w₂
      · have hnil₁ : Moves ⟨True, True, True⟩ L sv src (u.advance l) w₁ [] w₁ :=
          Moves.nil _ hm.grown.core hs'
        have hspec₁ : IoSpec ⟨True, True, True⟩ L sv src (u.advance l) w₁
            ⟨fun x w' => (sfsIo.out sv x.1 0 x.2).wp Q w', Q.err, Q.stopped⟩ := by
          refine ⟨hm.grown.core, hsv₁, hm.calm.writes hwrites, hs', ⟨fun _ => trivial, fun _ => hw⟩,
            fun _ _ => trivial, fun hr => absurd hr hnr, ?_, ?_, fun m w' _ => hstop hnot _ w'⟩
          · exact fun _ w' _ _ => wp_sfsIo_out fun w₂ _ _ => hok hnot _ w₂
          · intro m w₂ e hm' _
            have hhigh := hm'.high
            have hfits := hm'.fits
            rw [hpos] at hhigh
            rw [hres] at hfits
            have hfit := hm.fits
            rw [hs.advance_advance hm.fits hm.high (by omega) hhigh]
            refine hout (l ++ m) w₂ e (hm.trans hs hm') fun w₃ ht => ?_
            refine hlater _ w₃ e hnot (fun hnil => ?_) ht
            have := (List.append_eq_nil_iff.mp hnil).1
            rw [this, List.length_nil] at hl
            omega
        have hgo := wp_sfsIo_aligned hspec₁ hnil₁ fun _ => by
          rw [hpos, List.length_nil]
          exact hal (by omega)
        rwa [hs'.advance_nil] at hgo

end Write

/-! ## What is stored -/

/-- Position `x` of the file holds the byte of the buffer that was to go there. -/
def StoredAt (v : Vol) (sv : Ptr) (src : List UInt8) (u : Uio) (x : Nat) : Prop :=
  v.fileBlock (v.ino sv) (x / 512) ≠ 0 ∧ src[u.iovPos + (x - u.pos)]? = some (v.byte (v.ino sv) x)

/-- A failed write claims no byte that is not stored: not by the size of the file, and not by the
offset it ends at. -/
structure FailedCleanly (sv : Ptr) (src : List UInt8) (u u' : Uio) (v v' : Vol) : Prop where
  size : (v'.fs.heap sv).svI.sfiSize ≤ (v.fs.heap sv).svI.sfiSize ∨
    ∃ x : Nat, u.uioOffset ≤ x ∧ x < u'.uioOffset ∧ StoredAt v' sv src u x ∧
      (v'.fs.heap sv).svI.sfiSize.toNat ≤ x + 1
  stored : ∀ x : Nat, u.uioOffset ≤ x → x < u'.uioOffset → StoredAt v' sv src u x

theorem Transferred.stored (hsv : sv ∈ (vol w).fs.sfsVnodes) (hw : u.uioRw = .uioWrite)
    (h : Transferred π L sv src u w l w') {x : Nat} (h1 : u.pos ≤ x) (h2 : x < u.pos + l.length) :
    StoredAt (vol w') sv src u x := by
  obtain ⟨w₁, hm, -, hv⟩ := h
  rw [if_pos hw] at hv
  have hsv₁ : sv ∈ (vol w₁).fs.sfsVnodes := by rw [hm.grown.here.vnodes]; exact hsv
  have hmap := hm.mapped hw x h1 h2
  have hbyte : src[u.iovPos + (x - u.pos)]? = some ((vol w₁).byte ((vol w).ino sv) x) := by
    have hlt : x - u.pos < l.length := by omega
    rw [hm.wrote hw, overlay_of_mem h1 hlt, ← List.getElem?_eq_getElem hlt, hm.put hw,
      List.getElem?_take_of_lt hlt, List.getElem?_drop]
  rcases Vol.extend_touched hm.grown.core hsv₁ (u.pos + l.length : Nat) with he | he
  · rw [hv, he, StoredAt, hm.grown.here.ino_eq]
    exact ⟨hmap, hbyte⟩
  · have hL := hm.grown.core.live sv hsv₁
    rw [hm.grown.here.ino_eq] at hL
    obtain ⟨s, m, hf, hb⟩ := path_of_fileBlock hmap
    rw [hb] at hmap
    rw [hv, StoredAt, he.here.ino_eq, hm.grown.here.ino_eq, fileBlock_of_path hf,
      he.places _ hL s m (Nat.le_of_eq (fbPath_length hf)), Vol.byte, he.same _ hL]
    exact ⟨hmap, hbyte⟩

/-- The size afterwards. -/
theorem Transferred.size (hw : u.uioRw = .uioWrite) (h : Transferred π L sv src u w l w') :
    ((vol w').fs.heap sv).svI.sfiSize.toNat =
      if ((u.pos + l.length : Nat) : Int) > (vol w).size sv then u.pos + l.length
      else ((vol w).fs.heap sv).svI.sfiSize.toNat := by
  obtain ⟨w₁, hm, -, hv⟩ := h
  rw [if_pos hw] at hv
  have hhigh := hm.high
  have hold : ((vol w₁).fs.heap sv).svI.sfiSize = ((vol w).fs.heap sv).svI.sfiSize :=
    hm.grown.attrs.size
  have hsize : (vol w₁).size sv = (vol w).size sv := by rw [Vol.size, hold, Vol.size]
  rw [hv, Vol.extend, hsize]
  split
  · simp only [Vol.touch, heap_modifyVnode, if_true, UInt32.toNat_ofNat']
    rw [u32_natCast (by omega)]
    omega
  · rw [hold]

theorem i32_le (n : Nat) : i32 n ≤ n := by
  unfold i32
  split <;> omega

/-- If the write fails, it fails cleanly. -/
def WritesCleanly (sv : Ptr) (src : List UInt8) (u : Uio) (w : World) : Prop :=
  (sfsIo sv u).wp ⟨fun x w' => x.2 ≠ none → FailedCleanly sv src u x.1 (vol w) (vol w'),
    fun _ _ => True, fun _ _ => True⟩ w

/-- Whatever is moved before a later block fails is stored. -/
theorem Transferred.failedCleanly (hsv : sv ∈ (vol w).fs.sfsVnodes) (hs : u.Sound src)
    (hw : u.uioRw = .uioWrite) (hl : l ≠ []) (h : Transferred π L sv src u w l w') :
    FailedCleanly sv src u (u.advance l) (vol w) (vol w') := by
  have hoff := hs.offset_eq
  have hlen : 0 < l.length := List.length_pos_of_ne_nil hl
  have hsize := h.size hw
  have hst := fun x => h.stored hsv hw (x := x)
  obtain ⟨w₁, hm, -⟩ := h
  have hend := hs.offset_advance hm.high
  have hi := i32_le ((vol w).fs.heap sv).svI.sfiSize.toNat
  refine ⟨?_, fun x h1 h2 => hst x (by omega) (by omega)⟩
  by_cases hgt : ((u.pos + l.length : Nat) : Int) > (vol w).size sv
  · rw [if_pos hgt] at hsize
    exact .inr ⟨u.pos + l.length - 1, by omega, by omega, hst _ (by omega) (by omega), by omega⟩
  · rw [if_neg hgt] at hsize
    refine .inl ?_
    rw [UInt32.le_iff_toNat_le]
    omega

/-- If nothing was moved, the size is right as long as the write starts within the file. -/
theorem Transferred.failedCleanly_nil (hs : u.Sound src) (hw : u.uioRw = .uioWrite)
    (h : Transferred π L sv src u w [] w') : FailedCleanly sv src u u (vol w) (vol w') ↔
      u.uioOffset ≤ ((vol w).fs.heap sv).svI.sfiSize.toNat := by
  have hoff := hs.offset_eq
  have hi : (vol w).size sv ≤ _ := i32_le ((vol w).fs.heap sv).svI.sfiSize.toNat
  have hsize := h.size hw
  rw [List.length_nil, Nat.add_zero] at hsize
  constructor
  · intro hc
    rcases hc.size with h | ⟨x, h1, h2, -⟩
    · rw [UInt32.le_iff_toNat_le] at h
      split at hsize <;> omega
    · exact absurd h2 (Int.not_lt.mpr h1)
  · intro h
    refine ⟨.inl ?_, fun x h1 h2 => absurd h2 (Int.not_lt.mpr h1)⟩
    rw [UInt32.le_iff_toNat_le]
    split at hsize <;> omega

/-- As long as no write of the device fails, a failing write claims only what it stored if and only
if it starts within the file or its first block does not fail. -/
theorem writesCleanly_iff (L : UInt32 → Prop) (sv : Ptr) (src : List UInt8) (u : Uio) (w : World)
    (hcore : Core L (vol w)) (hsv : sv ∈ (vol w).fs.sfsVnodes) (hs : u.Sound src)
    (hw : u.uioRw = .uioWrite) (hwrites : w.env.writeFaults = []) :
    WritesCleanly sv src u w ↔
      u.uioOffset ≤ ((vol w).fs.heap sv).svI.sfiSize.toNat ∨ ¬ FirstFails sv u w := by
  constructor
  · intro h
    by_contra hno
    obtain ⟨hgt, hff⟩ := not_or.mp hno
    have hff := not_not.mp hff
    have hwrong : (sfsIo sv u).wp ⟨fun x w' => x.2 ≠ none ∧
        ¬ FailedCleanly sv src u x.1 (vol w) (vol w'), fun _ _ => False, fun _ _ => False⟩ w := by
      refine wp_sfsIo_write hcore hsv hwrites hs hw ?_ (fun _ _ _ hn => absurd hff hn)
        (fun hn => absurd hff hn) fun hn => absurd hff hn
      intro w' e _ ht
      exact ⟨Option.some_ne_none e, fun hc => hgt ((ht.failedCleanly_nil hs hw).mp hc)⟩
    obtain ⟨x, w', -, hc, he, hn⟩ := Prog.ok_of_wp ((h.and hwrong).mono (fun _ _ hx => hx)
      (fun _ _ hx => hx.2) fun _ _ hx => hx.2)
    exact hn (hc he)
  · intro h
    refine wp_sfsIo_write hcore hsv hwrites hs hw ?_ ?_ (fun _ _ _ hn => absurd rfl hn)
      fun _ _ _ => trivial
    · intro w' e hff ht _
      exact (ht.failedCleanly_nil hs hw).mpr (h.resolve_right (not_not.mpr hff))
    · exact fun l w' e _ hl ht _ => ht.failedCleanly hsv hs hw hl

theorem writesCleanly_iff_small : WritesCleanly 0 [7] (smallCall [7] 1 600 .uioWrite) smallVolume ↔
    600 ≤ (((vol smallVolume).fs.heap 0).svI.sfiSize.toNat : Int) ∨
      ¬ FirstFails 0 (smallCall [7] 1 600 .uioWrite) smallVolume :=
  writesCleanly_iff (fun i => i = 1 ∨ i = 3) 0 [7] (smallCall [7] 1 600 .uioWrite) smallVolume
    smallVolume_ready.core smallVolume_ready.vnode
    ⟨fun _ => rfl, by decide, by decide, by decide, by decide, by decide⟩ rfl rfl

/-- The volume with device faults to come. -/
def faultyVolume (readFaults writeFaults : List Bool) : World :=
  { smallVolume with
    env := { smallVolume.env with readFaults := readFaults, writeFaults := writeFaults } }

/-- Result, final offset, size and first byte after a write to the empty file. -/
def endOf (u : Uio) (w : World) : Option (Result × Int × Nat × UInt8) :=
  match (sfsIo 0 u).run machine w with
  | (.ok x, w') => some (x.2, x.1.uioOffset, ((vol w').fs.heap 0).svI.sfiSize.toNat,
      (vol w').byte ((vol w').ino 0) 0)
  | _ => none

theorem WritesCleanly.endOf {src : List UInt8} {a : Result × Int × Nat × UInt8}
    (h : WritesCleanly 0 src u w) (he : endOf u w = some a) (hr : a.1 ≠ none) :
    ∃ u' w', FailedCleanly 0 src u u' (vol w) (vol w') ∧ u'.uioOffset = a.2.1 ∧
      ((vol w').fs.heap 0).svI.sfiSize.toNat = a.2.2.1 ∧
      (vol w').byte ((vol w').ino 0) 0 = a.2.2.2 := by
  rw [WritesCleanly, Prog.wp_ok_iff] at h
  unfold Sfs.endOf at he
  split at he
  · next x w' hrun =>
    cases he
    exact ⟨x.1, w', h x w' hrun hr, rfl, rfl, rfl⟩
  · cases he

/-- A byte at 600 of the empty file, whose block cannot be read: the file has 600 bytes afterwards.
And 513 bytes of which the first 512 are lost on the device before the block of the last one cannot
be read: they are claimed to be there. -/
theorem failed_write_claims :
    ¬ WritesCleanly 0 [7] (smallCall [7] 1 600 .uioWrite)
        (faultyVolume (List.replicate 11 true) []) ∧
      ¬ WritesCleanly 0 (List.replicate 513 7) (smallCall (List.replicate 513 7) 513 0 .uioWrite)
        (faultyVolume (List.replicate 11 true) [false, true]) := by
  constructor
  · intro h
    have he : endOf (smallCall [7] 1 600 .uioWrite) (faultyVolume (List.replicate 11 true) []) =
        some (some .eio, 600, 600, 0) := by decide +kernel
    obtain ⟨u', w', hc, hoff, hsize, -⟩ := h.endOf he (Option.some_ne_none _)
    rcases hc.size with hle | ⟨x, h1, h2, -⟩
    · rw [UInt32.le_iff_toNat_le, hsize] at hle
      exact absurd hle (by decide)
    · rw [hoff] at h2
      exact absurd h2 (Int.not_lt.mpr h1)
  · intro h
    have he : endOf (smallCall (List.replicate 513 7) 513 0 .uioWrite)
        (faultyVolume (List.replicate 11 true) [false, true]) = some (some .eio, 512, 512, 0) := by
      decide +kernel
    obtain ⟨u', w', hc, hoff, -, hbyte⟩ := h.endOf he (Option.some_ne_none _)
    have hst := (hc.stored 0 (Int.le_refl 0) (by rw [hoff]; decide)).2
    rw [hbyte] at hst
    exact absurd hst (by decide)

end Os161.Sfs

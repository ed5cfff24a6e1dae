import Os161.Sfs.Volume

/-! # What the block layer does

One specification for each function of `BlockIo`. Reads may fail; writes are
assumed not to, since a failed write is retried with an empty uio and then
reported as done. -/
namespace Os161.Sfs
open Os161.Lib Kern

/-- Nothing new goes wrong: a world without pending faults leads to one. -/
structure Calm (w w' : World) : Prop where
  reads : w.env.readFaults = [] → w'.env.readFaults = []
  writes : w.env.writeFaults = [] → w'.env.writeFaults = []
  mem : w.env.memFaults = [] → w'.env.memFaults = []

theorem Calm.refl (w : World) : Calm w w := ⟨id, id, id⟩

theorem Calm.trans {a b c : World} (h : Calm a b) (h' : Calm b c) : Calm a c :=
  ⟨h'.reads ∘ h.reads, h'.writes ∘ h.writes, h'.mem ∘ h.mem⟩

/-- Only the list of pending faults changed. -/
structure Quiet (w w' : World) : Prop extends Calm w w' where
  st : w'.st = w.st
  disk : w'.env.disk = w.env.disk

theorem Quiet.refl (w : World) : Quiet w w := ⟨.refl w, rfl, rfl⟩

theorem Quiet.trans {a b c : World} (h : Quiet a b) (h' : Quiet b c) : Quiet a c :=
  ⟨h.toCalm.trans h'.toCalm, h'.st.trans h.st, h'.disk.trans h.disk⟩

theorem Quiet.vol {w w' : World} (h : Quiet w w') : vol w' = vol w := by
  simp [Sfs.vol, h.st, h.disk]

/-- Only block `b` changed, to `s`. -/
structure Wrote (b : Nat) (s : Sector) (w w' : World) : Prop extends Calm w w' where
  st : w'.st = w.st
  disk : w'.env.disk = fun x => if x = b then s else w.env.disk x

/-! ## Small programs

Whatever surrounds the kernel. -/

section Small

variable {O : Outside kernSig}

@[simp] theorem wp_attempt {α : Type} (p : Kern α) (Q : Post O (Except Errno α))
    (w : Lib.World O) : (p.attempt : Kern (Except Errno α)).wp Q w =
      p.wp ⟨fun a w' => Q.ok (.ok a) w', fun e w' => Q.ok (.error e) w', Q.stopped⟩ w :=
  Prog.wp_attempt p Q
@[simp] theorem wp_getKernel (Q : Post O Kernel) (w : Lib.World O) :
    getKernel.wp Q w = Q.ok w.st w := Prog.wp_getS Q
@[simp] theorem wp_getFs (Q : Post O SfsFs) (w : Lib.World O) :
    getFs.wp Q w = Q.ok w.st.fs w := by simp [getFs]
@[simp] theorem wp_modifyFs (f : SfsFs → SfsFs) (Q : Post O Unit) (w : Lib.World O) :
    (modifyFs f).wp Q w = Q.ok () { w with st := { w.st with fs := f w.st.fs } } :=
  Prog.wp_modifyS _ Q
@[simp] theorem wp_modifyBufs (f : Bufs → Bufs) (Q : Post O Unit) (w : Lib.World O) :
    (modifyBufs f).wp Q w = Q.ok () { w with st := { w.st with bufs := f w.st.bufs } } :=
  Prog.wp_modifyS _ Q
@[simp] theorem wp_getVnode (sv : Ptr) (Q : Post O SfsVnode) (w : Lib.World O) :
    (getVnode sv).wp Q w = Q.ok (w.st.fs.heap sv) w := by simp [getVnode]
@[simp] theorem wp_modifyVnode (sv : Ptr) (f : SfsVnode → SfsVnode) (Q : Post O Unit)
    (w : Lib.World O) : (Kern.modifyVnode sv f).wp Q w =
      Q.ok () { w with st := { w.st with fs := w.st.fs.modifyVnode sv f } } := wp_modifyFs _ Q w
@[simp] theorem wp_modifyInode (sv : Ptr) (f : SfsInode → SfsInode) (Q : Post O Unit)
    (w : Lib.World O) : (Kern.modifyInode sv f).wp Q w =
      Q.ok () { w with st := { w.st with fs := w.st.fs.modifyInode sv f } } := wp_modifyFs _ Q w
@[simp] theorem wp_setDirty (sv : Ptr) (Q : Post O Unit) (w : Lib.World O) :
    (setDirty sv).wp Q w = Q.ok () { w with st := { w.st with
      fs := w.st.fs.modifyVnode sv fun n => { n with svDirty := true } } } := by simp [setDirty]
@[simp] theorem wp_ofExcept_ok {α : Type} (a : α) (Q : Post O α) (w : Lib.World O) :
    (ofExcept (.ok a)).wp Q w = Q.ok a w := Prog.wp_pure a
@[simp] theorem wp_ofExcept_error {α : Type} (m : Stop) (Q : Post O α) (w : Lib.World O) :
    (ofExcept (.error m) : Kern α).wp Q w = Q.stopped m w := by
  simp only [Kern.ofExcept, Prog.wp_stop]
@[simp] theorem wp_check_none (Q : Post O Unit) (w : Lib.World O) :
    (check none).wp Q w = Q.ok () w := Prog.wp_pure ()
@[simp] theorem wp_check_some (e : Errno) (Q : Post O Unit) (w : Lib.World O) :
    (check (some e)).wp Q w = Q.err e w := by
  simp only [check, Prog.wp_fail]

end Small

@[simp] theorem wp_diskWait (Q : Post machine Resp) (w : World) :
    (diskRequest .wait).wp Q w = Q.ok ⟨none, Sector.zero⟩ w := Prog.wp_request _ Q

theorem wp_kmalloc {Q : Post machine Bool} {w : World}
    (hok : ∀ w', Quiet w w' → Q.ok true w')
    (hfail : ∀ w', Quiet w w' → w.env.memFaults ≠ [] → Q.ok false w') :
    kmalloc.wp Q w := by
  rw [kmalloc, Prog.wp_bind, Prog.wp_choose]
  have hq : Quiet w { w with env := { w.env with memFaults := w.env.memFaults.tail } } :=
    ⟨⟨id, id, fun h => by simp [h]⟩, rfl, rfl⟩
  simp only [Prog.wp_pure]
  cases h : w.env.memFaults.headD false with
  | false => exact hok _ hq
  | true =>
    refine hfail _ hq ?_
    intro h0
    simp [h0] at h

theorem wp_diskRead {b : Nat} {Q : Post machine Resp} {w : World} (hb : b < w.st.fs.dBlocks)
    (hok : ∀ w', Quiet w w' → Q.ok ⟨none, w.env.disk b⟩ w')
    (herr : ∀ w', Quiet w w' → w.env.readFaults ≠ [] → Q.ok ⟨some .eio, Sector.zero⟩ w') :
    (diskRequest (.read b)).wp Q w := by
  have hq : Quiet w { w with env := { w.env with readFaults := w.env.readFaults.tail } } :=
    ⟨⟨fun h => by simp [h], id, id⟩, rfl, rfl⟩
  rw [diskRequest, Prog.wp_request]
  cases h : w.env.readFaults.headD false with
  | true =>
    simp only [serve, h, if_true, if_neg (Nat.not_le.mpr hb)]
    exact herr _ hq fun h0 => by simp [h0] at h
  | false =>
    simp only [serve, h, Bool.false_eq_true, if_false, if_neg (Nat.not_le.mpr hb)]
    exact hok _ hq

theorem wp_diskWrite {b : Nat} {s : Sector} {Q : Post machine Resp} {w : World}
    (hb : b < w.st.fs.dBlocks) (hw : w.env.writeFaults = [])
    (hok : ∀ w', Wrote b s w w' → Q.ok ⟨none, s⟩ w') : (diskRequest (.write b s)).wp Q w := by
  rw [diskRequest, Prog.wp_request]
  simp only [serve, if_neg (Nat.not_le.mpr hb), hw, List.headD_nil, Bool.false_eq_true, if_false,
    List.tail_nil]
  exact hok _ ⟨⟨id, fun _ => rfl, id⟩, rfl, rfl⟩

/-! ## uio transfers -/

/-- What goes through the uio when `n` bytes are moved between it and `ptr`. -/
def Uio.chunk (u : Uio) (k : Kernel) (ptr : List UInt8) (n : Nat) : List UInt8 :=
  if u.uioRw = .uioRead then ptr.take n else u.source k n

theorem uiomove_loop_zero (k : Kernel) (fuel : Nat) (moved ptr : List UInt8) (uio : Uio) :
    uiomove.loop k fuel moved ptr 0 uio = .ok (moved ++ ptr, uio, none) := by
  cases fuel <;> simp [uiomove.loop]

theorem uiomove_loop_eq {k : Kernel} {ptr : List UInt8} {n : Nat} {uio : Uio} (hn : 0 < n)
    (hl : n ≤ uio.iovLen) (hr : 0 < uio.uioResid) :
    uiomove.loop k n [] ptr n uio =
      if uio.iovPos + n > uio.iovMapped then .ok (ptr, uio, some .efault)
      else .ok (uio.chunk k ptr n ++ ptr.drop n, uio.advance (uio.chunk k ptr n), none) := by
  obtain ⟨m, rfl⟩ : ∃ m, n = m + 1 := ⟨n - 1, by omega⟩
  have hs : min uio.iovLen (m + 1) = m + 1 := by omega
  rw [uiomove.loop, if_pos ⟨hn, hr⟩]
  simp only [hs, Nat.sub_self, uiomove_loop_zero, List.nil_append]
  rw [if_neg (by omega)]
  rfl

theorem wp_uiomove {O : Outside kernSig} {ptr : List UInt8} {n : Nat} {uio : Uio}
    {Q : Post O (List UInt8 × Uio × Result)} {w : Lib.World O}
    (hn : 0 < n) (hl : n ≤ uio.iovLen) (hr : 0 < uio.uioResid)
    (hok : uio.iovPos + n ≤ uio.iovMapped →
      Q.ok (uio.chunk w.st ptr n ++ ptr.drop n, uio.advance (uio.chunk w.st ptr n), none) w)
    (hfault : uio.iovMapped < uio.iovPos + n → Q.ok (ptr, uio, some .efault) w) :
    (uiomove ptr n uio).wp Q w := by
  simp only [uiomove, Prog.wp_bind, wp_getKernel, uiomove_loop_eq hn hl hr]
  by_cases h : uio.iovPos + n > uio.iovMapped
  · simpa only [if_pos h, wp_ofExcept_ok] using hfault h
  · simpa only [if_neg h, wp_ofExcept_ok] using hok (by omega)

/-! ## The driver and the retry loop -/

/-- The uio asks for exactly the sector `b` of the device. -/
structure Asks (uio : Uio) (b : Nat) (w : World) : Prop where
  off : uio.uioOffset = b * 512
  resid : uio.uioResid = 512
  len : 512 ≤ uio.iovLen
  lt : b < w.st.fs.dBlocks
  offsets : w.st.fs.dBlocks * 512 ≤ 2 ^ 31

theorem Asks.quiet {uio : Uio} {b : Nat} {w w' : World} (h : Asks uio b w) (hq : Quiet w w') :
    Asks uio b w' := by
  obtain ⟨h1, h2, h3, h4, h5⟩ := h
  exact ⟨h1, h2, h3, hq.st ▸ h4, hq.st ▸ h5⟩

theorem Asks.sector {uio : Uio} {b : Nat} {w : World} (h : Asks uio b w) :
    u32 (uio.uioOffset.tdiv 512) = b ∧ u32 (uio.uioOffset.tmod 512) = 0 := by
  obtain ⟨h1, -, -, h4, h5⟩ := h
  rw [h1]
  constructor
  · rw [Int.tdiv_eq_ediv_of_nonneg (by omega), u32_eq (by omega) (by omega)]
    omega
  · rw [Int.tmod_eq_emod_of_nonneg (by omega), u32_eq (by omega) (by omega)]
    omega

theorem wp_lhdIo {uio : Uio} {b : Nat} {Q : Post machine (Uio × Result)} {w : World}
    (ha : Asks uio b w)
    (h : (lhdIo.loop b 1 0 uio).wp Q w) : (lhdIo uio).wp Q w := by
  obtain ⟨hs, ho⟩ := ha.sector
  have hb := ha.lt
  have hd := ha.offsets
  have hc : ((b : Int) + ((512 / 512 : Nat) : Int)) = ((b + 1 : Nat) : Int) := by omega
  simp only [lhdIo, Prog.wp_bind, wp_getFs, hs, ho, ha.resid, Prog.wp_ite]
  rw [if_neg (by simp), hc, u32_natCast (by omega), if_neg (by omega)]
  exact h

theorem wp_lhdIo_read {uio : Uio} {b : Nat} {Q : Post machine (Uio × Result)} {w : World}
    (ha : Asks uio b w) (hrw : uio.uioRw = .uioRead)
    (hok : ∀ w', Quiet w w' → uio.iovPos + 512 ≤ uio.iovMapped →
      Q.ok (uio.advance (w.env.disk b).bytes, none) w')
    (hfault : ∀ w', Quiet w w' → uio.iovMapped < uio.iovPos + 512 →
      Q.ok (uio, some .efault) w')
    (herr : ∀ w', Quiet w w' → w.env.readFaults ≠ [] → Q.ok (uio, some .eio) w') :
    (lhdIo uio).wp Q w := by
  apply wp_lhdIo ha
  simp only [lhdIo.loop, Prog.wp_bind, wp_diskWait, hrw, Nat.add_zero]
  apply wp_diskRead ha.lt
  · intro w₁ h₁
    simp only [Prog.wp_bind]
    apply wp_uiomove (by decide) ha.len (by rw [ha.resid]; decide)
    · intro hm
      have hc : (w.env.disk b).bytes.take 512 = (w.env.disk b).bytes :=
        List.take_of_length_le (by simp)
      simpa [Uio.chunk, hrw, hc] using hok w₁ h₁ hm
    · intro hm
      simpa only [Prog.wp_pure] using hfault w₁ h₁ hm
  · intro w₁ h₁ hr
    simpa only [Prog.wp_pure] using herr w₁ h₁ hr

theorem wp_lhdIo_write {uio : Uio} {b : Nat} {Q : Post machine (Uio × Result)} {w : World}
    (ha : Asks uio b w) (hrw : uio.uioRw = .uioWrite) (hw : w.env.writeFaults = [])
    (hok : ∀ w', Wrote b (Sector.ofBytes (uio.source w.st 512)) w w' →
      uio.iovPos + 512 ≤ uio.iovMapped → Q.ok (uio.advance (uio.source w.st 512), none) w')
    (hfault : uio.iovMapped < uio.iovPos + 512 → Q.ok (uio, some .efault) w) :
    (lhdIo uio).wp Q w := by
  apply wp_lhdIo ha
  simp only [lhdIo.loop, Prog.wp_bind, wp_diskWait, hrw, Nat.add_zero]
  apply wp_uiomove (by decide) ha.len (by rw [ha.resid]; decide)
  · intro hm
    have hd : Sector.zero.bytes.drop 512 = [] := List.drop_of_length_le (by simp)
    have hc : uio.chunk w.st Sector.zero.bytes 512 = uio.source w.st 512 := by
      simp [Uio.chunk, hrw]
    simp only [hc, hd, List.append_nil, Prog.wp_bind]
    apply wp_diskWrite ha.lt hw
    intro w' h'
    simpa only [Prog.wp_pure] using hok w' h' hm
  · intro hm
    simpa only [Prog.wp_pure] using hfault hm

theorem wp_sfsRwblock_read {uio : Uio} {b : Nat} {Q : Post machine (Uio × Result)} {w : World}
    (ha : Asks uio b w) (hrw : uio.uioRw = .uioRead)
    (hok : ∀ w', Quiet w w' → uio.iovPos + 512 ≤ uio.iovMapped →
      Q.ok (uio.advance (w.env.disk b).bytes, none) w')
    (hfault : ∀ w', Quiet w w' → uio.iovMapped < uio.iovPos + 512 →
      Q.ok (uio, some .efault) w')
    (herr : ∀ w', Quiet w w' → w.env.readFaults ≠ [] → Q.ok (uio, some .eio) w') :
    (sfsRwblock uio).wp Q w := by
  unfold sfsRwblock
  generalize 10 = n
  -- each retry starts from a world that differs in its pending faults only
  suffices ∀ w₁, Quiet w w₁ → (sfsRwblock.retry n uio).wp Q w₁ from this w (.refl w)
  induction n with
  | zero =>
    intro w₁ h₁
    rw [sfsRwblock.retry, Prog.wp_bind]
    apply wp_lhdIo_read (ha.quiet h₁) hrw
    · intro w' h hm
      simpa [h₁.disk] using hok w' (h₁.trans h) hm
    · intro w' h hm
      simpa using hfault w' (h₁.trans h) hm
    · intro w' h hr
      simpa using herr w' (h₁.trans h) fun h0 => hr (h₁.reads h0)
  | succ n ih =>
    intro w₁ h₁
    rw [sfsRwblock.retry, Prog.wp_bind]
    apply wp_lhdIo_read (ha.quiet h₁) hrw
    · intro w' h hm
      simpa [h₁.disk] using hok w' (h₁.trans h) hm
    · intro w' h hm
      simpa using hfault w' (h₁.trans h) hm
    · intro w' h hr
      simpa using ih w' (h₁.trans h)

theorem wp_sfsRwblock_write {uio : Uio} {b : Nat} {Q : Post machine (Uio × Result)} {w : World}
    (ha : Asks uio b w) (hrw : uio.uioRw = .uioWrite) (hw : w.env.writeFaults = [])
    (hok : ∀ w', Wrote b (Sector.ofBytes (uio.source w.st 512)) w w' →
      uio.iovPos + 512 ≤ uio.iovMapped → Q.ok (uio.advance (uio.source w.st 512), none) w')
    (hfault : uio.iovMapped < uio.iovPos + 512 → Q.ok (uio, some .efault) w) :
    (sfsRwblock uio).wp Q w := by
  rw [sfsRwblock, sfsRwblock.retry, Prog.wp_bind]
  apply wp_lhdIo_write ha hrw hw
  · intro w' h hm
    simpa using hok w' h hm
  · intro hm
    simpa using hfault hm

/-! ## Whole blocks to and from kernel memory -/

/-- Block `b` can be addressed on the device. -/
structure Addressable (b : UInt32) (fs : SfsFs) : Prop where
  lt : b.toNat < fs.dBlocks
  offsets : fs.dBlocks * 512 ≤ 2 ^ 31

theorem Addressable.off {b : UInt32} {fs : SfsFs} (h : Addressable b fs) :
    sfsuioOffset b = b.toNat * 512 := by
  obtain ⟨h1, h2⟩ := h
  rw [sfsuioOffset, i32_eq (x := (b.toNat : Int)) (by omega) (by omega),
    i32_eq (by omega) (by omega)]

theorem Addressable.asks {b : UInt32} {w : World} (h : Addressable b w.st.fs)
    (f : Kernel → List UInt8) (rw : UioRw) :
    Asks (mkKuio f sfsBlocksize (sfsuioOffset b) rw) b.toNat w :=
  ⟨by simpa only [mkKuio] using h.off, by simp only [mkKuio], by simp only [mkKuio, Nat.le_refl],
    h.lt, h.offsets⟩

theorem wp_sfsRblock {b : UInt32} {Q : Post machine Sector} {w : World}
    (ha : Addressable b w.st.fs)
    (hok : ∀ w', Quiet w w' → Q.ok (w.env.disk b.toNat) w')
    (herr : ∀ w', Quiet w w' → w.env.readFaults ≠ [] → Q.err .eio w') :
    (sfsRblock b).wp Q w := by
  rw [sfsRblock, Prog.wp_bind]
  apply wp_sfsRwblock_read (ha.asks _ _) rfl
  · intro w' h _
    simpa [Uio.advance, mkKuio] using hok w' h
  · intro w' h hm
    simp [mkKuio] at hm
  · intro w' h hr
    simpa using herr w' h hr

theorem wp_sfsWblock {data : Kernel → Sector} {b : UInt32} {Q : Post machine Unit} {w : World}
    (ha : Addressable b w.st.fs) (hw : w.env.writeFaults = [])
    (hok : ∀ w', Wrote b.toNat (data w.st) w w' → Q.ok () w') :
    (sfsWblock data b).wp Q w := by
  have hs : (mkKuio (fun k => (data k).bytes) sfsBlocksize
    (sfsuioOffset b) .uioWrite).source w.st 512 =
      (data w.st).bytes := by
    simp only [Uio.source, mkKuio, List.drop_zero]
    exact List.take_of_length_le (by rw [Sector.length_bytes])
  rw [sfsWblock, Prog.wp_bind]
  apply wp_sfsRwblock_write (ha.asks _ _) rfl hw
  · intro w' h _
    rw [hs, Sector.ofBytes_bytes] at h
    simpa using hok w' h
  · intro hm
    simp [mkKuio] at hm

end Os161.Sfs

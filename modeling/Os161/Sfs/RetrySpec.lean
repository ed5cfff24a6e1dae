import Os161.Sfs.BlockIoSpec

/-! # Device errors and the retry loop

`sfs_rwblock` calls the driver again with the same uio. A failed read has not
touched it and is tried again; a failed write has used it up, and the second call
finds nothing left to transfer and succeeds. -/
namespace Os161.Sfs
open Os161.Lib Kern

/-! ## The device with a log -/

abbrev Log := List (Req × Resp)

/-- The machine, with a log of the requests and the answers of the device. -/
@[reducible] def logged : Outside kernSig where
  Env := Device × Log
  serve k r e := ((serve k r e.1).1, (serve k r e.1).2, e.2 ++ [(r, (serve k r e.1).1)])
  toss e := ((machine.toss e.1).1, (machine.toss e.1).2, e.2)

/-- The log is only written to. -/
theorem run_logged {α : Type} (p : Kern α) (w : Lib.World logged) :
    (p.run machine ⟨w.st, w.env.1⟩).1 = (p.run logged w).1 ∧
      (p.run machine ⟨w.st, w.env.1⟩).2.st = (p.run logged w).2.st ∧
      (p.run machine ⟨w.st, w.env.1⟩).2.env = (p.run logged w).2.env.1 := by
  induction p generalizing w with
  | ret | fail | stop => exact ⟨rfl, rfl, rfl⟩
  | get k ih => exact ih w.st w
  | put s k ih => exact ih ⟨s, w.env⟩
  | flip k ih => exact ih _ ⟨w.st, (logged.toss w.env).2⟩
  | call r k ih => exact ih _ ⟨w.st, (logged.serve w.st r w.env).2⟩
  | emit e k ih => exact ih w

/-! ## The driver, whatever surrounds the kernel -/

/-- The sector `SFSUIO` and the driver make of a block number: the byte offset is an `off_t`. -/
def sectorOf (b : UInt32) : Nat := u32 ((sfsuioOffset b).tdiv 512)

/-- The sector where the next transfer with the same uio would start. -/
def nextSectorOf (b : UInt32) : Nat := u32 ((i32 (sfsuioOffset b + 512)).tdiv 512)

theorem sfsuioOffset_eq (b : UInt32) : ∃ q : Int, sfsuioOffset b = q * 512 := by
  refine ⟨sfsuioOffset b / 512, ?_⟩
  unfold sfsuioOffset i32
  split <;> split <;> omega

theorem i32_next (q : Int) : ∃ r : Int, i32 (q * 512 + 512) = r * 512 := by
  refine ⟨i32 (q * 512 + 512) / 512, ?_⟩
  unfold i32
  split <;> omega

theorem sectorOf_of_lt {b : UInt32} (h : b.toNat < 2 ^ 22) : sectorOf b = b.toNat := by
  rw [sectorOf, sfsuioOffset, i32_eq (x := (b.toNat : Int)) (by omega) (by omega),
    i32_eq (by omega) (by omega), Int.mul_tdiv_cancel _ (by decide), u32_natCast (by omega)]

theorem nextSectorOf_le {b : UInt32} {d : Nat} (hb : b.toNat < d) (ho : d * 512 < 2 ^ 31) :
    nextSectorOf b ≤ d := by
  rw [nextSectorOf, sfsuioOffset, i32_eq (x := (b.toNat : Int)) (by omega) (by omega),
    i32_eq (x := (b.toNat : Int) * 512) (by omega) (by omega), i32_eq (by omega) (by omega)]
  rw [show (b.toNat : Int) * 512 + 512 = ((b.toNat + 1 : Nat) : Int) * 512 by omega,
    Int.mul_tdiv_cancel _ (by decide), u32_natCast (by omega)]
  exact hb

section Driver

variable {O : Outside kernSig} {uio : Uio} {Q : Post O (Uio × Result)} {w : Lib.World O}

/-- A transfer of one sector. -/
theorem wp_lhdIo_one {q : Int} (hoff : uio.uioOffset = q * 512) (hresid : uio.uioResid = 512)
    (hrange : w.st.fs.dBlocks < u32 ((u32 q : Nat) + 1) → Q.ok (uio, some .einval) w)
    (hloop : u32 ((u32 q : Nat) + 1) ≤ w.st.fs.dBlocks →
      (lhdIo.loop (u32 q) 1 0 uio).wp Q w) : (lhdIo uio).wp Q w := by
  have hs : (q * 512).tdiv 512 = q := Int.mul_tdiv_cancel _ (by decide)
  have ho : u32 ((q * 512).tmod 512) = 0 := by
    rw [Int.mul_tmod_left]
    rfl
  have hlen : ((512 / 512 : Nat) : Int) = 1 := rfl
  simp only [lhdIo, Prog.wp_bind, wp_getFs, hoff, hs, ho, hresid, Prog.wp_ite, hlen]
  rw [if_neg (by simp)]
  by_cases h : u32 ((u32 q : Nat) + 1) > w.st.fs.dBlocks
  · rw [if_pos h, Prog.wp_pure]
    exact hrange h
  · rw [if_neg h]
    exact hloop (Nat.not_lt.mp h)

/-- A transfer of nothing. -/
theorem wp_lhdIo_none {q : Int} (hoff : uio.uioOffset = q * 512) (hresid : uio.uioResid = 0)
    (hrange : w.st.fs.dBlocks < u32 (u32 q : Nat) → Q.ok (uio, some .einval) w)
    (hok : u32 (u32 q : Nat) ≤ w.st.fs.dBlocks → Q.ok (uio, none) w) : (lhdIo uio).wp Q w := by
  have hs : (q * 512).tdiv 512 = q := Int.mul_tdiv_cancel _ (by decide)
  have ho : u32 ((q * 512).tmod 512) = 0 := by
    rw [Int.mul_tmod_left]
    rfl
  have hlen : ((0 / 512 : Nat) : Int) = 0 := rfl
  simp only [lhdIo, Prog.wp_bind, wp_getFs, hoff, hs, ho, hresid, Prog.wp_ite, hlen, Int.add_zero]
  rw [if_neg (by simp)]
  by_cases h : u32 (u32 q : Nat) > w.st.fs.dBlocks
  · rw [if_pos h, Prog.wp_pure]
    exact hrange h
  · rw [if_neg h, lhdIo.loop, Prog.wp_pure]
    exact hok (Nat.not_lt.mp h)

end Driver

/-! ## Writes -/

/-- The world after the device has answered `r`. -/
def answered (w : Lib.World logged) (r : Req) : Lib.World logged :=
  { w with env := (logged.serve w.st r w.env).2 }

@[simp] theorem st_answered (w : Lib.World logged) (r : Req) : (answered w r).st = w.st := rfl

theorem wp_logRequest {r : Req} {Q : Post logged Resp} {w : Lib.World logged}
    (h : Q.ok (serve w.st r w.env.1).1 (answered w r)) : (diskRequest r).wp Q w := by
  rw [diskRequest, Prog.wp_request]
  exact h

theorem u32_lt (x : Int) : u32 x < 2 ^ 32 := by
  unfold u32
  omega

theorem le_of_lt_u32_succ {s d : Nat} (h : d < u32 ((s : Int) + 1)) : d ≤ s := by
  unfold u32 at h
  omega

theorem serve_write_refused {k : Kernel} {s : Nat} {x : Sector} {d : Device}
    (h : k.fs.dBlocks ≤ s) : (serve k (.write s x) d).1.result = some .einval := by
  simp only [serve, if_pos h]

theorem serve_write {k : Kernel} {s : Nat} {x : Sector} {d : Device} (h : ¬ k.fs.dBlocks ≤ s) :
    (serve k (.write s x) d).1.result =
      if d.writeFaults.headD false = true then some .eio else none := by
  simp only [serve, if_neg h]
  split <;> rfl

/-- One attempt to write: it moves the data into the on-card buffer first. -/
theorem wp_lhdIo_write_logged {uio : Uio} {q : Int} {Q : Post logged (Uio × Result)}
    {w : Lib.World logged} (hoff : uio.uioOffset = q * 512) (hresid : uio.uioResid = 512)
    (hlen : 512 ≤ uio.iovLen) (hmap : uio.iovPos + 512 ≤ uio.iovMapped)
    (hrw : uio.uioRw = .uioWrite)
    (hrange : w.st.fs.dBlocks ≤ u32 q → ∀ u w', Q.ok (u, some .einval) w')
    (hdone : u32 q < w.st.fs.dBlocks → Q.ok (uio.advance (uio.source w.st 512),
        if w.env.1.writeFaults.headD false = true then some .eio else none)
      (answered (answered w .wait) (.write (u32 q) (Sector.ofBytes (uio.source w.st 512))))) :
    (lhdIo uio).wp Q w := by
  refine wp_lhdIo_one hoff hresid (fun h => hrange (le_of_lt_u32_succ h) _ _) fun _ => ?_
  simp only [lhdIo.loop, Prog.wp_bind, hrw, Nat.add_zero]
  apply wp_logRequest
  apply wp_uiomove (by decide) hlen (by rw [hresid]; decide)
  · intro _
    have hd : Sector.zero.bytes.drop 512 = [] := List.drop_of_length_le (by simp)
    have hc : uio.chunk w.st Sector.zero.bytes 512 = uio.source w.st 512 := by
      simp [Uio.chunk, hrw]
    simp only [st_answered, hc, hd, List.append_nil, Prog.wp_bind]
    apply wp_logRequest
    dsimp only
    by_cases hb : w.st.fs.dBlocks ≤ u32 q
    · rw [serve_write_refused (by exact hb)]
      dsimp only
      rw [Prog.wp_pure]
      exact hrange hb _ _
    · have hdone := hdone (Nat.not_le.mp hb)
      have hf : (answered w .wait).env.1.writeFaults = w.env.1.writeFaults := rfl
      rw [serve_write (by exact hb), hf]
      cases hfault : w.env.1.writeFaults.headD false with
      | true =>
        simp only [hfault, if_true] at hdone
        simpa only [if_true, Prog.wp_pure] using hdone
      | false =>
        simp only [hfault, Bool.false_eq_true, if_false] at hdone
        simpa only [Bool.false_eq_true, if_false, Prog.wp_pure] using hdone
  · intro hm
    omega

/-- The attempt to write `data` to the sector of a block. -/
def written (w : Lib.World logged) (data : Kernel → Sector) (b : UInt32) : Lib.World logged :=
  answered (answered w .wait) (.write (sectorOf b) (data w.st))

/-- A write is attempted once: if it fails, the retry has nothing left to write and
succeeds unless the driver refuses the offset the uio has come to. -/
theorem wp_sfsWblock_logged {data : Kernel → Sector} {b : UInt32} {Q : Post logged Unit}
    {w : Lib.World logged}
    (hstop : w.st.fs.dBlocks ≤ sectorOf b ∨
      w.env.1.writeFaults.headD false = true ∧ w.st.fs.dBlocks < nextSectorOf b →
      ∀ w', Q.stopped .dIoEinval w')
    (hok : sectorOf b < w.st.fs.dBlocks → (w.env.1.writeFaults.headD false = true →
      nextSectorOf b ≤ w.st.fs.dBlocks) → Q.ok () (written w data b)) :
    (sfsWblock data b).wp Q w := by
  obtain ⟨q, hq⟩ := sfsuioOffset_eq b
  obtain ⟨r, hr⟩ := i32_next q
  have hs : u32 q = sectorOf b := by
    rw [sectorOf, hq, Int.mul_tdiv_cancel _ (by decide)]
  have hn : u32 (u32 r : Nat) = nextSectorOf b := by
    rw [u32_natCast (u32_lt r), nextSectorOf, hq, hr, Int.mul_tdiv_cancel _ (by decide)]
  rw [sfsWblock, Prog.wp_bind, sfsRwblock]
  generalize hu : mkKuio (fun k => (data k).bytes) sfsBlocksize (sfsuioOffset b) .uioWrite = uio
  have hbytes : uio.source w.st 512 = (data w.st).bytes := by
    simp only [← hu, Uio.source, mkKuio, List.drop_zero]
    exact List.take_of_length_le (by rw [Sector.length_bytes])
  have hoff : uio.uioOffset = q * 512 := by simpa only [← hu, mkKuio] using hq
  have hresid : uio.uioResid = 512 := by simp only [← hu, mkKuio]
  rw [sfsRwblock.retry, Prog.wp_bind]
  refine wp_lhdIo_write_logged hoff hresid (by simp only [← hu, mkKuio, Nat.le_refl])
    (by simp only [← hu, mkKuio, Nat.zero_add, Nat.le_refl]) (by simp only [← hu, mkKuio]) ?_ ?_
  · intro hb u w'
    simp only [if_true, Prog.wp_stop]
    exact hstop (.inl (hs ▸ hb)) w'
  · intro hb
    rw [hs, hbytes, Sector.ofBytes_bytes] at *
    cases hfault : w.env.1.writeFaults.headD false with
    | false =>
      simp only [Bool.false_eq_true, if_false, reduceCtorEq, Prog.wp_pure, wp_check_none]
      exact hok hb fun h => by rw [hfault] at h; cases h
    | true =>
      simp only [if_true, reduceCtorEq, if_false, Option.some.injEq]
      rw [sfsRwblock.retry, Prog.wp_bind]
      refine wp_lhdIo_none (q := r) ?_ ?_ ?_ ?_
      · simpa only [Uio.advance, hoff, Sector.length_bytes, Nat.cast_ofNat] using hr
      · simp only [Uio.advance, hresid, Sector.length_bytes]
        rfl
      · intro hrange
        rw [hn] at hrange
        simp only [if_true, Prog.wp_stop]
        exact hstop (.inr ⟨hfault, hrange⟩) _
      · intro hle
        rw [hn] at hle
        simp only [reduceCtorEq, if_false, Prog.wp_pure, wp_check_none]
        exact hok hb fun _ => hle

/-! ## Reads -/

theorem serve_read_refused {k : Kernel} {s : Nat} {d : Device} (h : k.fs.dBlocks ≤ s) :
    (serve k (.read s) d).1.result = some .einval := by
  simp only [serve, if_pos h]

/-- What `n` further attempts to read sector `s` leave: the disk, and a log of reads of `s`. -/
structure Tried (s : Nat) (w w' : Lib.World logged) : Prop where
  st : w'.st = w.st
  disk : w'.env.1.disk = w.env.1.disk
  mem : w'.env.1.memFaults = w.env.1.memFaults
  calm : w.env.1.readFaults = [] → w'.env.1.readFaults = []
  kept : ∀ e ∈ w.env.2, e ∈ w'.env.2
  log : ∀ e ∈ w'.env.2, e ∈ w.env.2 ∨ e.1 = .wait ∨ e.1 = .read s

theorem Tried.refl (s : Nat) (w : Lib.World logged) : Tried s w w :=
  ⟨rfl, rfl, rfl, id, fun _ he => he, fun _ he => .inl he⟩

theorem Tried.trans {s : Nat} {w₁ w₂ w₃ : Lib.World logged} (h : Tried s w₁ w₂)
    (h' : Tried s w₂ w₃) : Tried s w₁ w₃ where
  st := h'.st.trans h.st
  disk := h'.disk.trans h.disk
  mem := h'.mem.trans h.mem
  calm := h'.calm ∘ h.calm
  kept e he := h'.kept e (h.kept e he)
  log e he := (h'.log e he).elim (h.log e) .inr

theorem Tried.wait (s : Nat) (w : Lib.World logged) : Tried s w (answered w .wait) where
  st := rfl
  disk := rfl
  mem := rfl
  calm := id
  kept _ he := List.mem_append_left _ he
  log e he := by
    rcases List.mem_append.mp he with he | he
    · exact .inl he
    · obtain rfl := List.mem_singleton.mp he
      exact .inr (.inl rfl)

theorem Tried.read (s : Nat) (w : Lib.World logged) : Tried s w (answered w (.read s)) where
  st := rfl
  disk := by
    simp only [answered, serve]
    split
    · rfl
    · split <;> rfl
  mem := by
    simp only [answered, serve]
    split
    · rfl
    · split <;> rfl
  calm hr := by
    simp only [answered, serve, hr]
    split
    · exact hr
    · rfl
  kept _ he := List.mem_append_left _ he
  log e he := by
    rcases List.mem_append.mp he with he | he
    · exact .inl he
    · obtain rfl := List.mem_singleton.mp he
      exact .inr (.inr rfl)

/-- One attempt to read: only success moves anything. -/
theorem wp_lhdIo_read_logged {uio : Uio} {q : Int} {Q : Post logged (Uio × Result)}
    {w : Lib.World logged} (hoff : uio.uioOffset = q * 512) (hresid : uio.uioResid = 512)
    (hlen : 512 ≤ uio.iovLen) (hmap : uio.iovPos + 512 ≤ uio.iovMapped)
    (hrw : uio.uioRw = .uioRead)
    (hrange : w.st.fs.dBlocks ≤ u32 q → ∀ u w', Q.ok (u, some .einval) w')
    (hfault : u32 q < w.st.fs.dBlocks → w.env.1.readFaults.headD false = true →
      ∀ w', Tried (u32 q) w w' → w'.env.1.readFaults = w.env.1.readFaults.tail →
      Q.ok (uio, some .eio) w')
    (hok : u32 q < w.st.fs.dBlocks → w.env.1.readFaults.headD false = false →
      ∀ w', Tried (u32 q) w w' → (.read (u32 q), ⟨none, w.env.1.disk (u32 q)⟩) ∈ w'.env.2 →
      Q.ok (uio.advance (w.env.1.disk (u32 q)).bytes, none) w') : (lhdIo uio).wp Q w := by
  refine wp_lhdIo_one hoff hresid (fun h => hrange (le_of_lt_u32_succ h) _ _) fun _ => ?_
  simp only [lhdIo.loop, Prog.wp_bind, hrw, Nat.add_zero]
  apply wp_logRequest
  apply wp_logRequest
  have htried := (Tried.wait (u32 q) w).trans (Tried.read (u32 q) (answered w .wait))
  dsimp only
  by_cases hb : w.st.fs.dBlocks ≤ u32 q
  · rw [serve_read_refused (by exact hb)]
    dsimp only
    rw [Prog.wp_pure]
    exact hrange hb _ _
  · cases hf : w.env.1.readFaults.headD false with
    | true =>
      have hserve : serve w.st (.read (u32 q)) (answered w .wait).env.1 =
          (⟨some .eio, Sector.zero⟩,
            { w.env.1 with readFaults := w.env.1.readFaults.tail }) := by
        simp only [serve, if_neg hb]
        rw [if_pos (by exact hf)]
        rfl
      simp only [st_answered, hserve, Prog.wp_pure]
      refine hfault (Nat.not_le.mp hb) hf _ htried ?_
      change (serve w.st (.read (u32 q)) (answered w .wait).env.1).2.readFaults = _
      rw [hserve]
    | false =>
      have hserve : serve w.st (.read (u32 q)) (answered w .wait).env.1 =
          (⟨none, w.env.1.disk (u32 q)⟩,
            { w.env.1 with readFaults := w.env.1.readFaults.tail }) := by
        simp only [serve, if_neg hb]
        rw [if_neg (by rw [Bool.not_eq_true]; exact hf)]
        rfl
      have hlog : (.read (u32 q), ⟨none, w.env.1.disk (u32 q)⟩) ∈
          (answered (answered w .wait) (.read (u32 q))).env.2 := by
        refine List.mem_append_right _ (List.mem_singleton.mpr ?_)
        change _ = (_, (serve w.st (.read (u32 q)) (answered w .wait).env.1).1)
        rw [hserve]
      simp only [st_answered, hserve, Prog.wp_bind]
      apply wp_uiomove (by decide) hlen (by rw [hresid]; decide)
      · intro _
        have hc : (w.env.1.disk (u32 q)).bytes.take 512 = (w.env.1.disk (u32 q)).bytes :=
          List.take_of_length_le (by simp)
        simp only [Uio.chunk, hrw, if_true, hc, Prog.wp_pure]
        exact hok (Nat.not_le.mp hb) hf _ htried hlog
      · intro hm
        omega

/-- A read is attempted eleven times at most. -/
theorem wp_sfsRblock_logged {b : UInt32} {Q : Post logged Sector} {w : Lib.World logged}
    (hstop : w.st.fs.dBlocks ≤ sectorOf b → ∀ w', Q.stopped .dIoEinval w')
    (hok : sectorOf b < w.st.fs.dBlocks → (∃ i < 11, w.env.1.readFaults.getD i false = false) →
      ∀ w', Tried (sectorOf b) w w' →
        (.read (sectorOf b), ⟨none, w.env.1.disk (sectorOf b)⟩) ∈ w'.env.2 →
        Q.ok (w.env.1.disk (sectorOf b)) w')
    (herr : (∀ i < 11, w.env.1.readFaults.getD i false = true) → ∀ w', Q.err .eio w') :
    (sfsRblock b).wp Q w := by
  obtain ⟨q, hq⟩ := sfsuioOffset_eq b
  have hs : u32 q = sectorOf b := by
    rw [sectorOf, hq, Int.mul_tdiv_cancel _ (by decide)]
  rw [← hs] at hstop hok
  rw [sfsRblock, Prog.wp_bind, sfsRwblock]
  generalize hu : mkKuio (fun _ => []) sfsBlocksize (sfsuioOffset b) .uioRead = uio
  have hoff : uio.uioOffset = q * 512 := by simpa only [← hu, mkKuio] using hq
  have hresid : uio.uioResid = 512 := by simp only [← hu, mkKuio]
  have hlen : 512 ≤ uio.iovLen := by simp only [← hu, mkKuio, Nat.le_refl]
  have hmap : uio.iovPos + 512 ≤ uio.iovMapped := by
    simp only [← hu, mkKuio, Nat.zero_add, Nat.le_refl]
  have hrw : uio.uioRw = .uioRead := by simp only [← hu, mkKuio]
  have hout (x : Sector) : Sector.ofBytes (uio.advance x.bytes).iovOut = x := by
    simp [Uio.advance, ← hu, mkKuio]
  -- after `k` failed attempts `n` retries remain
  suffices ∀ n k, n + k = 10 → ∀ w₁, Tried (u32 q) w w₁ →
      (∀ i < k, w.env.1.readFaults.getD i false = true) →
      w₁.env.1.readFaults = w.env.1.readFaults.drop k →
      (sfsRwblock.retry n uio).wp ⟨fun x w' => ((do
        check x.2
        return Sector.ofBytes x.1.iovOut : Kern Sector)).wp Q w', Q.err, Q.stopped⟩ w₁ from
    this 10 0 rfl w (.refl _ w) (by simp) rfl
  intro n
  induction n with
  | zero =>
    intro k hk w₁ h₁ hfaults hdrop
    have hhead : w₁.env.1.readFaults.headD false = w.env.1.readFaults.getD k false := by
      rw [hdrop]
      simp
    rw [sfsRwblock.retry, Prog.wp_bind]
    refine wp_lhdIo_read_logged hoff hresid hlen hmap hrw ?_ ?_ ?_
    · intro hb u w'
      simp only [if_true, Prog.wp_stop]
      exact hstop (h₁.st ▸ hb) w'
    · intro hb hf w' _ _
      simp only [if_true, reduceCtorEq, if_false, Option.some.injEq, Prog.wp_pure, Prog.wp_bind,
        wp_check_some]
      refine herr (fun i hi => ?_) w'
      by_cases hik : i < k
      · exact hfaults i hik
      · rw [show i = k by omega, ← hhead, hf]
    · intro hb hf w' h' hlog
      simp only [reduceCtorEq, if_false, Prog.wp_pure, Prog.wp_bind, wp_check_none, hout]
      rw [h₁.disk] at hlog ⊢
      exact hok (h₁.st ▸ hb) ⟨k, by omega, hhead ▸ hf⟩ w' (h₁.trans h') hlog
  | succ n ih =>
    intro k hk w₁ h₁ hfaults hdrop
    have hhead : w₁.env.1.readFaults.headD false = w.env.1.readFaults.getD k false := by
      rw [hdrop]
      simp
    rw [sfsRwblock.retry, Prog.wp_bind]
    refine wp_lhdIo_read_logged hoff hresid hlen hmap hrw ?_ ?_ ?_
    · intro hb u w'
      simp only [if_true, Prog.wp_stop]
      exact hstop (h₁.st ▸ hb) w'
    · intro hb hf w' h' hrest
      simp only [if_true, reduceCtorEq, if_false, Option.some.injEq]
      refine ih (k + 1) (by omega) w' (h₁.trans h') (fun i hi => ?_) ?_
      · by_cases hik : i < k
        · exact hfaults i hik
        · rw [show i = k by omega, ← hhead, hf]
      · rw [hrest, hdrop, List.tail_drop]
    · intro hb hf w' h' hlog
      simp only [reduceCtorEq, if_false, Prog.wp_pure, Prog.wp_bind, wp_check_none, hout]
      rw [h₁.disk] at hlog ⊢
      exact hok (h₁.st ▸ hb) ⟨k, by omega, hhead ▸ hf⟩ w' (h₁.trans h') hlog

/-! ## Without the log -/

/-- What holds of a run with a log holds without it. -/
theorem wp_of_logged {α : Type} {p : Kern α} {Q : Post machine α} {w : World} {l : Log}
    (h : p.wp (O := logged) ⟨fun a w' => Q.ok a ⟨w'.st, w'.env.1⟩,
      fun e w' => Q.err e ⟨w'.st, w'.env.1⟩, fun m w' => Q.stopped m ⟨w'.st, w'.env.1⟩⟩
      ⟨w.st, (w.env, l)⟩) : p.wp Q w := by
  obtain ⟨ho, hs, he⟩ := run_logged p ⟨w.st, (w.env, l)⟩
  rw [Prog.wp_iff] at h ⊢
  change (p.run machine w).1 = _ at ho
  change (p.run machine w).2.st = _ at hs
  change (p.run machine w).2.env = _ at he
  generalize p.run logged ⟨w.st, (w.env, l)⟩ = r at *
  generalize p.run machine w = r' at *
  obtain ⟨o, w₁⟩ := r
  obtain ⟨o', ⟨st, env⟩⟩ := r'
  dsimp only at ho hs he
  subst ho hs he
  cases o' <;> exact h

/-- A read from the device, errors included. -/
theorem wp_sfsRblock_any {b : UInt32} {Q : Post machine Sector} {w : World}
    (hb : b.toNat < 2 ^ 22) (hd : b.toNat < w.st.fs.dBlocks)
    (hok : ∀ w', w'.st = w.st → w'.env.disk = w.env.disk → w'.env.memFaults = w.env.memFaults →
      (w.env.readFaults = [] → w'.env.readFaults = []) → Q.ok (w.env.disk b.toNat) w')
    (herr : w.env.readFaults ≠ [] → ∀ w', Q.err .eio w') : (sfsRblock b).wp Q w := by
  have hs := sectorOf_of_lt hb
  refine wp_of_logged (l := []) (wp_sfsRblock_logged ?_ ?_ ?_)
  · rw [hs]
    intro hle
    exact absurd hd (Nat.not_lt.mpr hle)
  · intro _ _ w' htried _
    rw [hs] at htried
    rw [hs]
    exact hok ⟨w'.st, w'.env.1⟩ htried.st htried.disk htried.mem htried.calm
  · intro hall w'
    refine herr (fun h => ?_) _
    have := hall 0 (by decide)
    simp [h] at this

/-- A write to the device, errors included: it returns 0. -/
theorem wp_sfsWblock_any {data : Kernel → Sector} {b : UInt32} {Q : Post machine Unit} {w : World}
    (hb : b.toNat < w.st.fs.dBlocks) (ho : w.st.fs.dBlocks * 512 < 2 ^ 31)
    (hok : ∀ w', w'.st = w.st → Q.ok () w') : (sfsWblock data b).wp Q w := by
  have hs : sectorOf b = b.toNat := sectorOf_of_lt (by omega)
  have hn : nextSectorOf b ≤ w.st.fs.dBlocks := nextSectorOf_le hb ho
  refine wp_of_logged (l := []) (wp_sfsWblock_logged ?_ fun _ _ => hok _ rfl)
  intro hx w'
  rcases hx with h | ⟨-, h⟩
  · rw [hs] at h
    exact absurd hb (Nat.not_lt.mpr h)
  · exact absurd hn (Nat.not_le.mpr h)

end Os161.Sfs

import Os161.Sfs.RetrySpec
import Os161.Sfs.Mount

/-! # What a reported success means

A block that was read is the caller's; a block that was written need not be on
the disk, since `sfs_wblock` reports a failed write as done. -/
namespace Os161.Sfs
open Os161.Lib Kern

/-! ## Single blocks -/

/-- If `sfs_wblock` returns 0, the device has written the caller's data to the sector. -/
def WriteReported (data : Kernel → Sector) (b : UInt32) (st : Kernel) (d : Device) : Prop :=
  ∀ a w', (sfsWblock data b).run logged ⟨st, (d, [])⟩ = (.ok a, w') →
    (.write b.toNat (data st), ⟨none, data st⟩) ∈ w'.env.2 ∧ w'.env.1.disk b.toNat = data st

/-- If `sfs_rblock` returns 0, the device has read the sector and the caller has it. -/
def ReadReported (b : UInt32) (st : Kernel) (d : Device) : Prop :=
  ∀ s w', (sfsRblock b).run logged ⟨st, (d, [])⟩ = (.ok s, w') →
    (.read b.toNat, ⟨none, s⟩) ∈ w'.env.2 ∧ w'.env.1.disk b.toNat = s

/-- The request is refused, or the byte offset does not wrap and the first attempt
succeeds, or it fails and the retry is refused. -/
def WriteCond (b : UInt32) (st : Kernel) (d : Device) : Prop :=
  st.fs.dBlocks ≤ sectorOf b ∨
    if d.writeFaults.headD false = true then st.fs.dBlocks < nextSectorOf b
    else sectorOf b = b.toNat

/-- The request is refused, or the byte offset does not wrap, or all attempts fail. -/
def ReadCond (b : UInt32) (st : Kernel) (d : Device) : Prop :=
  st.fs.dBlocks ≤ sectorOf b ∨ sectorOf b = b.toNat ∨
    ∀ i < 11, d.readFaults.getD i false = true

theorem log_written (w : Lib.World logged) (data : Kernel → Sector) (b : UInt32) :
    (written w data b).env.2 = w.env.2 ++ [(.wait, ⟨none, Sector.zero⟩)] ++
      [(.write (sectorOf b) (data w.st),
        (serve w.st (.write (sectorOf b) (data w.st)) w.env.1).1)] := rfl

theorem device_written (w : Lib.World logged) (data : Kernel → Sector) (b : UInt32) :
    (written w data b).env.1 = (serve w.st (.write (sectorOf b) (data w.st)) w.env.1).2 := rfl

theorem serve_write_ok {k : Kernel} {s : Nat} {x : Sector} {d : Device} (h : s < k.fs.dBlocks)
    (hf : d.writeFaults.headD false = false) : serve k (.write s x) d = (⟨none, x⟩,
      { d with writeFaults := d.writeFaults.tail,
               disk := fun b => if b = s then x else d.disk b }) := by
  simp only [serve, if_neg (Nat.not_le.mpr h), hf, Bool.false_eq_true, if_false]

theorem serve_write_fault {k : Kernel} {s : Nat} {x : Sector} {d : Device} (h : s < k.fs.dBlocks)
    (hf : d.writeFaults.headD false = true) : serve k (.write s x) d =
      (⟨some .eio, x⟩, { d with writeFaults := d.writeFaults.tail }) := by
  simp only [serve, if_neg (Nat.not_le.mpr h), hf, if_true]

theorem writeReported_iff (data : Kernel → Sector) (b : UInt32) (st : Kernel) (d : Device) :
    WriteReported data b st d ↔ WriteCond b st d := by
  constructor
  · intro h
    by_contra hc
    obtain ⟨hb, hc⟩ := not_or.mp hc
    have hb := Nat.not_le.mp hb
    have hrun := Prog.ok_of_wp (p := sfsWblock data b) (w := ⟨st, (d, [])⟩)
      (P := fun _ w' => w' = written ⟨st, (d, [])⟩ data b) ?_
    · obtain ⟨a, w', hrun, rfl⟩ := hrun
      obtain ⟨hlog, -⟩ := h a _ hrun
      rw [log_written, List.nil_append, List.mem_append] at hlog
      rcases hlog with hlog | hlog
      · have := List.mem_singleton.mp hlog
        cases this
      · obtain ⟨hreq, hresp⟩ := Prod.mk.inj (List.mem_singleton.mp hlog)
        cases hf : d.writeFaults.headD false with
        | true =>
          rw [serve_write_fault hb hf] at hresp
          cases hresp
        | false =>
          rw [hf] at hc
          exact hc (Req.write.inj hreq).1.symm
    · refine wp_sfsWblock_logged ?_ fun _ _ => rfl
      intro hx
      rcases hx with hr | ⟨hf, hr⟩
      · exact absurd hr (Nat.not_le.mpr hb)
      · exact absurd hr (by simpa only [if_pos hf] using hc)
  · intro hc
    refine Prog.wp_ok_iff.mp (wp_sfsWblock_logged (fun _ _ => trivial) fun hb hnext => ?_)
    have hc := hc.resolve_left (Nat.not_le.mpr hb)
    cases hf : d.writeFaults.headD false with
    | true =>
      rw [if_pos hf] at hc
      exact absurd hc (Nat.not_lt.mpr (hnext hf))
    | false =>
      rw [hf] at hc
      have hs : sectorOf b = b.toNat := hc
      dsimp only
      rw [log_written, device_written, serve_write_ok hb hf, hs]
      exact ⟨List.mem_append_right _ (List.mem_singleton.mpr rfl), if_pos rfl⟩

theorem readReported_iff (b : UInt32) (st : Kernel) (d : Device) :
    ReadReported b st d ↔ ReadCond b st d := by
  constructor
  · intro h
    by_contra hc
    obtain ⟨hb, hc⟩ := not_or.mp hc
    obtain ⟨hs, hc⟩ := not_or.mp hc
    have hrun := Prog.ok_of_wp (p := sfsRblock b) (w := ⟨st, (d, [])⟩)
      (P := fun _ w' => Tried (sectorOf b) ⟨st, (d, [])⟩ w') ?_
    · obtain ⟨s, w', hrun, htried⟩ := hrun
      rcases htried.log _ (h s w' hrun).1 with hlog | hlog | hlog
      · cases hlog
      · cases hlog
      · exact hs (Req.read.inj hlog).symm
    · refine wp_sfsRblock_logged (fun hr => absurd hr hb) (fun _ _ w' h' _ => h') ?_
      exact fun hall => absurd hall hc
  · intro hc
    refine Prog.wp_ok_iff.mp (wp_sfsRblock_logged (fun _ _ => trivial) ?_ fun _ _ => trivial)
    intro hb ⟨i, hi, hfault⟩ w' htried hlog
    rcases hc with hc | hc | hc
    · exact absurd hb (Nat.not_lt.mpr hc)
    · dsimp only
      rw [← hc, htried.disk]
      exact ⟨hlog, rfl⟩
    · rw [hc i hi] at hfault
      cases hfault

/-- Exactly when a reported success means that the transfer happened. -/
theorem success_reported_iff (data : Kernel → Sector) (b : UInt32) (st : Kernel) (d : Device) :
    (WriteReported data b st d ↔ WriteCond b st d) ∧ (ReadReported b st d ↔ ReadCond b st d) :=
  ⟨writeReported_iff data b st d, readReported_iff b st d⟩

/-- A mounted volume with nothing loaded, on a device of eight blocks. -/
def eightBlocks : Kernel where
  fs :=
    { sfsSuper := SfsSuper.ofSector Sector.zero
      sfsSuperdirty := false
      dBlocks := 8
      sfsVnodes := []
      sfsFreemap := bitmapCreate 4096
      sfsFreemapdirty := false
      heap := fun _ => ⟨1, 0, .sfsFileops, SfsInode.ofSector Sector.zero, 1, false⟩
      brk := 0 }
  bufs := ⟨fun _ => 0, Sector.zero, fun _ => 0⟩

/-- The first attempt to write block 3 fails; the call returns 0 with nothing written. -/
theorem writeReported_lost : ¬ WriteReported (fun _ _ => 7) 3 eightBlocks
    ⟨fun _ => Sector.zero, [], [true], []⟩ := by
  rw [writeReported_iff]
  unfold WriteCond
  decide

/-! ## Syncing -/

/-- The device and its log after one attempt to write `x` to sector `b`. -/
def attempt (e : Device × Log) (b : Nat) (x : Sector) : Device × Log :=
  ({ e.1 with
      writeFaults := e.1.writeFaults.tail
      disk := if e.1.writeFaults.headD false = true then e.1.disk
        else fun b' => if b' = b then x else e.1.disk b' },
    e.2 ++ [(.wait, ⟨none, Sector.zero⟩),
      (.write b x, ⟨if e.1.writeFaults.headD false = true then some .eio else none, x⟩)])

def attempts (e : Device × Log) (ws : List (Nat × Sector)) : Device × Log :=
  ws.foldl (fun e p => attempt e p.1 p.2) e

theorem attempts_append (e : Device × Log) (l₁ l₂ : List (Nat × Sector)) :
    attempts e (l₁ ++ l₂) = attempts (attempts e l₁) l₂ := List.foldl_append

/-- A volume as mounting leaves it and the operations keep it: every vnode is in the table
once, and what `sfs_sync` writes lies on the device, whose size fits `off_t`. -/
structure Mounted (fs : SfsFs) : Prop where
  nodup : fs.sfsVnodes.Nodup
  inodes : ∀ sv ∈ fs.sfsVnodes, (fs.heap sv).svIno.toNat < fs.dBlocks
  map : sfsMapLocation + fs.bitblocks ≤ fs.dBlocks
  offsets : fs.dBlocks * 512 < 2 ^ 31

theorem written_eq {w : Lib.World logged} {data : Kernel → Sector} {b : UInt32}
    (hb : b.toNat < w.st.fs.dBlocks) (ho : w.st.fs.dBlocks * 512 < 2 ^ 31) :
    written w data b = { w with env := attempt w.env b.toNat (data w.st) } := by
  have hs : sectorOf b = b.toNat := sectorOf_of_lt (by omega)
  have henv : (written w data b).env = attempt w.env b.toNat (data w.st) := by
    refine Prod.ext ?_ ?_
    · rw [device_written, hs]
      cases hf : w.env.1.writeFaults.headD false with
      | true =>
        rw [serve_write_fault hb hf]
        simp only [attempt, hf, if_true]
      | false =>
        rw [serve_write_ok hb hf]
        simp only [attempt, hf, Bool.false_eq_true, if_false]
    · rw [log_written, hs, List.append_assoc]
      cases hf : w.env.1.writeFaults.headD false with
      | true =>
        rw [serve_write_fault hb hf]
        simp only [attempt, hf, if_true]
        rfl
      | false =>
        rw [serve_write_ok hb hf]
        simp only [attempt, hf, Bool.false_eq_true, if_false]
        rfl
  rw [← henv]
  rfl

/-- On the device `sfs_wblock` attempts its write and returns 0. -/
theorem wp_sfsWblock_attempt {data : Kernel → Sector} {b : UInt32} {Q : Post logged Unit}
    {w : Lib.World logged} (hb : b.toNat < w.st.fs.dBlocks) (ho : w.st.fs.dBlocks * 512 < 2 ^ 31)
    (hok : Q.ok () { w with env := attempt w.env b.toNat (data w.st) }) :
    (sfsWblock data b).wp Q w := by
  have hs : sectorOf b = b.toNat := sectorOf_of_lt (by omega)
  refine wp_sfsWblock_logged ?_ fun _ _ => @written_eq w data b hb ho ▸ hok
  intro hx
  rcases hx with hr | ⟨-, hr⟩
  · omega
  · exact absurd (nextSectorOf_le hb ho) (Nat.not_le.mpr hr)

/-- The vnodes `l` marked clean. -/
def cleaned (fs : SfsFs) (l : List Ptr) : SfsFs :=
  { fs with heap := fun p => if p ∈ l then { fs.heap p with svDirty := false } else fs.heap p }

/-- The inodes of the dirty vnodes among `l`, with their blocks. -/
def inodeWrites (fs : SfsFs) (l : List Ptr) : List (Nat × Sector) :=
  (l.filter fun sv => (fs.heap sv).svDirty).map fun sv =>
    ((fs.heap sv).svIno.toNat, (fs.heap sv).svI.toSector)

theorem cleaned_cons (fs : SfsFs) (sv : Ptr) (l : List Ptr) :
    cleaned (fs.modifyVnode sv fun n => { n with svDirty := false }) l = cleaned fs (sv :: l) := by
  unfold cleaned SfsFs.modifyVnode SfsFs.setVnode
  congr 1
  funext p
  by_cases hp : p = sv <;> by_cases hl : p ∈ l <;> simp [hp, hl]

theorem modifyVnode_clean {fs : SfsFs} {sv : Ptr} (h : (fs.heap sv).svDirty = false) :
    (fs.modifyVnode sv fun n => { n with svDirty := false }) = fs := by
  unfold SfsFs.modifyVnode SfsFs.setVnode
  congr 1
  funext p
  by_cases hp : p = sv
  · subst hp
    simp [← h]
  · simp [hp]

theorem inodeWrites_modify {fs : SfsFs} {sv : Ptr} {l : List Ptr} (h : sv ∉ l)
    (f : SfsVnode → SfsVnode) : inodeWrites (fs.modifyVnode sv f) l = inodeWrites fs l := by
  have heap (p : Ptr) (hp : p ∈ l) : (fs.modifyVnode sv f).heap p = fs.heap p :=
    if_neg fun (he : p = sv) => h (he ▸ hp)
  unfold inodeWrites
  rw [List.filter_congr fun p hp => by rw [heap p hp]]
  exact List.map_congr_left fun p hp => by rw [heap p (List.mem_filter.mp hp).1]

theorem wp_sync_vnodes {Q : Post logged Unit} (l : List Ptr) :
    ∀ (pre : List Ptr) (w : Lib.World logged), w.st.fs.sfsVnodes = pre ++ l → l.Nodup →
      (∀ sv ∈ l, (w.st.fs.heap sv).svIno.toNat < w.st.fs.dBlocks) →
      w.st.fs.dBlocks * 512 < 2 ^ 31 →
      Q.ok () ⟨{ w.st with fs := cleaned w.st.fs l }, attempts w.env (inodeWrites w.st.fs l)⟩ →
      (sfsSync.vnodes l.length pre.length).wp Q w := by
  induction l with
  | nil =>
    intro pre w _ _ _ _ hQ
    have : cleaned w.st.fs [] = w.st.fs := by simp [cleaned]
    rw [this] at hQ
    rw [List.length_nil, sfsSync.vnodes, Prog.wp_pure]
    exact hQ
  | cons sv l ih =>
    intro pre w hl hn hino ho hQ
    obtain ⟨hsv, hn⟩ := List.nodup_cons.mp hn
    have hget : w.st.fs.sfsVnodes[pre.length]? = some sv := by
      rw [hl, List.getElem?_append_right (Nat.le_refl _), Nat.sub_self]
      rfl
    -- the rest of the loop, once `sv` is clean
    have hnext (w₁ : Lib.World logged)
        (hst : w₁.st = { w.st with
          fs := w.st.fs.modifyVnode sv fun n => { n with svDirty := false } })
        (henv : w₁.env = attempts w.env (inodeWrites w.st.fs [sv])) :
        (sfsSync.vnodes l.length (pre.length + 1)).wp Q w₁ := by
      have hlen : pre.length + 1 = (pre ++ [sv]).length := by simp
      rw [hlen]
      refine ih (pre ++ [sv]) w₁ ?_ hn ?_ ?_ ?_
      · rw [hst, List.append_assoc]
        exact hl
      · intro p hp
        have hne : p ≠ sv := fun he => hsv (he ▸ hp)
        have := hino p (List.mem_cons_of_mem sv hp)
        rw [hst]
        simpa [SfsFs.modifyVnode, SfsFs.setVnode, hne] using this
      · rw [hst]
        exact ho
      · rw [hst, henv, cleaned_cons, inodeWrites_modify hsv, ← attempts_append]
        have : inodeWrites w.st.fs [sv] ++ inodeWrites w.st.fs l =
          inodeWrites w.st.fs (sv :: l) := by
          unfold inodeWrites
          rw [← List.map_append, ← List.filter_append, List.singleton_append]
        rw [this]
        exact hQ
    rw [List.length_cons, sfsSync.vnodes]
    simp only [Prog.wp_bind, wp_getFs, hget, vopFsync, sfsSyncInode]
    rw [wp_attempt, Prog.wp_bind, wp_getVnode]
    simp only [Prog.wp_ite]
    cases hd : (w.st.fs.heap sv).svDirty with
    | true =>
      have hw : inodeWrites w.st.fs [sv] =
          [((w.st.fs.heap sv).svIno.toNat, (w.st.fs.heap sv).svI.toSector)] := by
        simp only [inodeWrites, List.filter_cons, hd, if_true, List.filter_nil, List.map_cons,
          List.map_nil]
      rw [if_pos rfl, Prog.wp_bind]
      refine wp_sfsWblock_attempt (hino sv List.mem_cons_self) ho ?_
      dsimp only
      rw [wp_modifyVnode]
      exact hnext ⟨{ w.st with fs := w.st.fs.modifyVnode sv fun n => { n with svDirty := false } },
        attempt w.env _ _⟩ rfl (by rw [hw]; rfl)
    | false =>
      have hw : inodeWrites w.st.fs [sv] = [] := by
        simp only [inodeWrites, List.filter_cons, hd, Bool.false_eq_true, if_false,
          List.filter_nil, List.map_nil]
      rw [if_neg (by simp), Prog.wp_pure]
      refine hnext w ?_ (by rw [hw]; rfl)
      rw [modifyVnode_clean hd]

theorem wp_mapio_write {Q : Post logged Unit} (n : Nat) :
    ∀ (j : Nat) (w : Lib.World logged), sfsMapLocation + (j + n) ≤ w.st.fs.dBlocks →
      w.st.fs.dBlocks * 512 < 2 ^ 31 →
      Q.ok () { w with env := attempts w.env ((List.range' j n).map fun i =>
        (sfsMapLocation + i, mapSector w.st.fs.sfsFreemap i)) } →
      (sfsMapio.write n j).wp Q w := by
  induction n with
  | zero =>
    intro j w _ _ hQ
    rw [sfsMapio.write, Prog.wp_pure]
    exact hQ
  | succ n ih =>
    intro j w hj ho hQ
    have hb : (UInt32.ofNat (sfsMapLocation + j)).toNat = sfsMapLocation + j := by
      rw [UInt32.toNat_ofNat']
      exact Nat.mod_eq_of_lt (by omega)
    rw [sfsMapio.write, Prog.wp_bind]
    refine wp_sfsWblock_attempt (by rw [hb]; omega) ho ?_
    rw [hb]
    exact ih (j + 1) _ (by dsimp only; omega) ho hQ

/-- The blocks of the free map, if they have to be written. -/
def mapWrites (fs : SfsFs) : List (Nat × Sector) :=
  if fs.sfsFreemapdirty = true then (List.range' 0 fs.bitblocks).map fun i =>
    (sfsMapLocation + i, mapSector fs.sfsFreemap i)
  else []

def superWrites (fs : SfsFs) : List (Nat × Sector) :=
  if fs.sfsSuperdirty = true then [(sfsSbLocation.toNat, fs.sfsSuper.toSector)] else []

/-- Everything that is dirty, with its blocks. -/
def syncWrites (fs : SfsFs) : List (Nat × Sector) :=
  inodeWrites fs fs.sfsVnodes ++ mapWrites fs ++ superWrites fs

/-- `sfs_sync` attempts to write everything that is dirty and returns 0. -/
theorem wp_sfsSync {Q : Post logged Unit} {w : Lib.World logged} (hm : Mounted w.st.fs)
    (hQ : ∀ w', w'.env = attempts w.env (syncWrites w.st.fs) → Q.ok () w') : sfsSync.wp Q w := by
  obtain ⟨hn, hino, hmap, ho⟩ := hm
  rw [sfsSync, Prog.wp_bind, wp_getFs]
  dsimp only
  rw [Prog.wp_bind]
  refine wp_sync_vnodes w.st.fs.sfsVnodes [] w rfl hn hino ho ?_
  simp only [Prog.wp_bind, wp_getFs, Prog.wp_ite]
  -- the superblock, after the free map
  have hsuper (w₁ : Lib.World logged) (h₁ : w₁.st.fs.sfsSuper = w.st.fs.sfsSuper)
      (h₂ : w₁.st.fs.sfsSuperdirty = w.st.fs.sfsSuperdirty)
      (h₃ : w₁.st.fs.dBlocks = w.st.fs.dBlocks)
      (h₄ : w₁.env = attempts w.env (inodeWrites w.st.fs w.st.fs.sfsVnodes ++ mapWrites w.st.fs)) :
      if w₁.st.fs.sfsSuperdirty = true then
        (sfsWblock (fun k => k.fs.sfsSuper.toSector) sfsSbLocation).wp ⟨fun _ w' =>
          (modifyFs fun fs => { fs with sfsSuperdirty := false }).wp Q w', Q.err, Q.stopped⟩ w₁
      else (pure () : Kern Unit).wp Q w₁ := by
    have hpos : sfsSbLocation.toNat < w₁.st.fs.dBlocks := by
      rw [h₃]
      change 2 + w.st.fs.bitblocks ≤ _ at hmap
      change 0 < w.st.fs.dBlocks
      omega
    cases hd : w.st.fs.sfsSuperdirty with
    | true =>
      rw [if_pos (h₂.trans hd)]
      refine wp_sfsWblock_attempt hpos (h₃ ▸ ho) ?_
      dsimp only
      rw [wp_modifyFs]
      refine hQ _ ?_
      rw [syncWrites, superWrites, hd, if_pos rfl, attempts_append, ← h₄, h₁]
      rfl
    | false =>
      rw [if_neg (by rw [h₂, hd]; simp), Prog.wp_pure]
      refine hQ _ ?_
      rw [syncWrites, superWrites, hd, if_neg (by simp), List.append_nil, h₄]
  cases hd : w.st.fs.sfsFreemapdirty with
  | true =>
    have hd' : (cleaned w.st.fs w.st.fs.sfsVnodes).sfsFreemapdirty = true := hd
    rw [if_pos hd']
    refine wp_mapio_write _ 0 _ (by rw [Nat.zero_add]; exact hmap) ho ?_
    dsimp only
    rw [wp_modifyFs]
    refine hsuper _ rfl rfl rfl ?_
    rw [mapWrites, if_pos hd, attempts_append]
    rfl
  | false =>
    have hd' : (cleaned w.st.fs w.st.fs.sfsVnodes).sfsFreemapdirty = false := hd
    rw [if_neg (by rw [hd']; simp)]
    refine hsuper ⟨{ w.st with fs := cleaned w.st.fs w.st.fs.sfsVnodes }, _⟩ rfl rfl rfl ?_
    rw [mapWrites, if_neg (by rw [hd]; simp), List.append_nil]

/-- The device reported a successful transfer of `x` to sector `b`. -/
def Done (log : Log) (b : Nat) (x : Sector) : Prop := (.write b x, ⟨none, x⟩) ∈ log

def Failed (log : Log) (b : Nat) (x : Sector) : Prop := (.write b x, ⟨some .eio, x⟩) ∈ log

theorem attempts_kept {e : Device × Log} {ws : List (Nat × Sector)} {x : Req × Resp}
    (hx : x ∈ e.2) : x ∈ (attempts e ws).2 := by
  induction ws generalizing e with
  | nil => exact hx
  | cons p ws ih => exact ih (List.mem_append_left _ hx)

theorem headD_eq_getD (l : List Bool) : l.headD false = l.getD 0 false := by
  cases l <;> rfl

theorem attempts_done {e : Device × Log} {ws : List (Nat × Sector)}
    (h : ∀ i < ws.length, e.1.writeFaults.getD i false = false) :
    (∀ p ∈ ws, Done (attempts e ws).2 p.1 p.2) ∧
      ∀ x ∈ (attempts e ws).2, x ∈ e.2 ∨ x.2.result = none := by
  induction ws generalizing e with
  | nil => exact ⟨by simp, fun x hx => .inl hx⟩
  | cons p ws ih =>
    have hf : e.1.writeFaults.headD false = false := by
      rw [headD_eq_getD]
      exact h 0 (by simp)
    have hrest : ∀ i < ws.length, (attempt e p.1 p.2).1.writeFaults.getD i false = false := by
      intro i hi
      have := h (i + 1) (by simpa using hi)
      simpa [attempt] using this
    have hthis : (attempt e p.1 p.2).2 =
        e.2 ++ [(.wait, ⟨none, Sector.zero⟩), (.write p.1 p.2, ⟨none, p.2⟩)] := by
      simp only [attempt, hf, Bool.false_eq_true, if_false]
    obtain ⟨hdone, hlog⟩ := ih hrest
    refine ⟨fun p' hp' => ?_, fun x hx => ?_⟩
    · rcases List.mem_cons.mp hp' with rfl | hp'
      · refine attempts_kept (e := attempt e _ _) ?_
        rw [hthis]
        simp
      · exact hdone p' hp'
    · rcases hlog x hx with hx | hx
      · rw [hthis] at hx
        simp only [List.mem_append, List.mem_cons, List.not_mem_nil, or_false] at hx
        rcases hx with hx | rfl | rfl
        · exact .inl hx
        · exact .inr rfl
        · exact .inr rfl
      · exact .inr hx

theorem attempts_failed {e : Device × Log} {ws : List (Nat × Sector)} {i : Nat}
    (hi : i < ws.length) (h : e.1.writeFaults.getD i false = true) :
    ∃ p ∈ ws, Failed (attempts e ws).2 p.1 p.2 := by
  induction ws generalizing e i with
  | nil => cases hi
  | cons p ws ih =>
    cases i with
    | zero =>
      have hf : e.1.writeFaults.headD false = true := by
        rw [headD_eq_getD]
        exact h
      refine ⟨p, List.mem_cons_self, attempts_kept (e := attempt e _ _) ?_⟩
      simp only [attempt, hf, if_true]
      simp
    | succ i =>
      obtain ⟨p', hp', hfail⟩ := ih (e := attempt e p.1 p.2) (by simpa using hi)
        (by simpa [attempt] using h)
      exact ⟨p', List.mem_cons_of_mem p hp', hfail⟩

/-- If `sfs_sync` returns 0, whatever was dirty has been written by a successful
transfer; if one of these writes failed, it returns an error and the flag is still set. -/
def SyncDurable (st : Kernel) (d : Device) : Prop :=
  ∀ o w', sfsSync.run logged ⟨st, (d, [])⟩ = (o, w') →
    (o = .ok () →
      (∀ sv ∈ st.fs.sfsVnodes, (st.fs.heap sv).svDirty = true →
        Done w'.env.2 (st.fs.heap sv).svIno.toNat (st.fs.heap sv).svI.toSector) ∧
      (st.fs.sfsFreemapdirty = true → ∀ j < st.fs.bitblocks,
        Done w'.env.2 (sfsMapLocation + j) (mapSector st.fs.sfsFreemap j)) ∧
      (st.fs.sfsSuperdirty = true → Done w'.env.2 sfsSbLocation.toNat st.fs.sfsSuper.toSector)) ∧
    (∀ sv ∈ st.fs.sfsVnodes, (st.fs.heap sv).svDirty = true →
      Failed w'.env.2 (st.fs.heap sv).svIno.toNat (st.fs.heap sv).svI.toSector →
      (∃ e, o = .err e) ∧ (w'.st.fs.heap sv).svDirty = true) ∧
    (st.fs.sfsFreemapdirty = true → ∀ j < st.fs.bitblocks,
      Failed w'.env.2 (sfsMapLocation + j) (mapSector st.fs.sfsFreemap j) →
      (∃ e, o = .err e) ∧ w'.st.fs.sfsFreemapdirty = true) ∧
    (st.fs.sfsSuperdirty = true → Failed w'.env.2 sfsSbLocation.toNat st.fs.sfsSuper.toSector →
      (∃ e, o = .err e) ∧ w'.st.fs.sfsSuperdirty = true)

theorem mem_syncWrites {fs : SfsFs} {p : Nat × Sector} : p ∈ syncWrites fs ↔
    (∃ sv ∈ fs.sfsVnodes, (fs.heap sv).svDirty = true ∧
      p = ((fs.heap sv).svIno.toNat, (fs.heap sv).svI.toSector)) ∨
    (fs.sfsFreemapdirty = true ∧ ∃ j < fs.bitblocks,
      p = (sfsMapLocation + j, mapSector fs.sfsFreemap j)) ∨
    fs.sfsSuperdirty = true ∧ p = (sfsSbLocation.toNat, fs.sfsSuper.toSector) := by
  unfold syncWrites inodeWrites mapWrites superWrites
  rw [List.mem_append, List.mem_append, or_assoc]
  refine or_congr ?_ (or_congr ?_ ?_)
  · simp only [List.mem_map, List.mem_filter]
    constructor
    · intro hx
      obtain ⟨sv, ⟨hsv, hd⟩, rfl⟩ := hx
      exact ⟨sv, hsv, hd, rfl⟩
    · intro hx
      obtain ⟨sv, hsv, hd, rfl⟩ := hx
      exact ⟨sv, ⟨hsv, hd⟩, rfl⟩
  · split
    · next h =>
      simp only [h, true_and, List.mem_map, List.mem_range'_1, Nat.zero_le, Nat.zero_add]
      constructor
      · intro hx
        obtain ⟨j, hj, rfl⟩ := hx
        exact ⟨j, hj, rfl⟩
      · intro hx
        obtain ⟨j, hj, rfl⟩ := hx
        exact ⟨j, hj, rfl⟩
    · next h => simp [h]
  · split
    · next h => simp [h]
    · next h => simp [h]

/-- A sync is durable exactly when none of its writes fails: one for each dirty inode in
the order of the table, then the free map if it is dirty, then the superblock if it is. -/
theorem syncDurable_iff (st : Kernel) (d : Device) (hm : Mounted st.fs) :
    SyncDurable st d ↔ ∀ i < (syncWrites st.fs).length, d.writeFaults.getD i false = false := by
  obtain ⟨a, w', hrun, henv⟩ := Prog.ok_of_wp (p := sfsSync) (w := ⟨st, (d, [])⟩)
    (P := fun _ w' => w'.env = attempts (d, []) (syncWrites st.fs)) (wp_sfsSync hm fun w' h => h)
  constructor
  · intro h i hi
    by_contra hfault
    rw [Bool.not_eq_false] at hfault
    obtain ⟨p, hp, hfail⟩ := attempts_failed (e := (d, [])) hi hfault
    rw [← henv] at hfail
    obtain ⟨-, hino, hmap, hsuper⟩ := h _ _ hrun
    rcases mem_syncWrites.mp hp with ⟨sv, hsv, hd, rfl⟩ | ⟨hd, j, hj, rfl⟩ | ⟨hd, rfl⟩
    · obtain ⟨⟨e, he⟩, -⟩ := hino sv hsv hd hfail
      cases he
    · obtain ⟨⟨e, he⟩, -⟩ := hmap hd j hj hfail
      cases he
    · obtain ⟨⟨e, he⟩, -⟩ := hsuper hd hfail
      cases he
  · intro h o w'' hrun'
    rw [hrun] at hrun'
    cases hrun'
    obtain ⟨hdone, hlog⟩ := attempts_done (e := (d, [])) h
    rw [← henv] at hdone hlog
    have hno (b : Nat) (x : Sector) : ¬ Failed w'.env.2 b x := by
      intro hx
      rcases hlog _ hx with hx | hx
      · cases hx
      · cases hx
    refine ⟨fun _ => ⟨?_, ?_, ?_⟩, fun sv _ _ hf => absurd hf (hno _ _),
      fun _ j _ hf => absurd hf (hno _ _), fun _ hf => absurd hf (hno _ _)⟩
    · exact fun sv hsv hd => hdone _ (mem_syncWrites.mpr (.inl ⟨sv, hsv, hd, rfl⟩))
    · exact fun hd j hj => hdone _ (mem_syncWrites.mpr (.inr (.inl ⟨hd, j, hj, rfl⟩)))
    · exact fun hd => hdone _ (mem_syncWrites.mpr (.inr (.inr ⟨hd, rfl⟩)))

/-- The same volume with one dirty inode, in block 3. -/
def oneDirty : Kernel :=
  { eightBlocks with fs :=
    { eightBlocks.fs with
      sfsVnodes := [0]
      heap := fun _ => ⟨1, 0, .sfsFileops, SfsInode.ofSector Sector.zero, 3, true⟩ } }

theorem oneDirty_mounted : Mounted oneDirty.fs where
  nodup := by decide
  inodes := by decide
  map := by decide
  offsets := by decide

/-- The write of the inode fails, and the sync returns 0 and marks it clean. -/
theorem syncDurable_lost : ¬ SyncDurable oneDirty ⟨fun _ => Sector.zero, [], [true], []⟩ := by
  intro h
  obtain ⟨a, w', hrun, henv⟩ := Prog.ok_of_wp (p := sfsSync)
    (w := ⟨oneDirty, (⟨fun _ => Sector.zero, [], [true], []⟩, [])⟩)
    (P := fun _ w' => w'.env = attempts (⟨fun _ => Sector.zero, [], [true], []⟩, [])
      (syncWrites oneDirty.fs))
    (wp_sfsSync oneDirty_mounted fun w' h => h)
  obtain ⟨-, hino, -⟩ := h _ _ hrun
  obtain ⟨⟨e, he⟩, -⟩ := hino 0 List.mem_cons_self rfl (by
    rw [henv]
    refine List.mem_append_right _ ?_
    exact List.mem_cons_of_mem _ (List.mem_singleton.mpr rfl))
  cases he

theorem syncDurable_iff_one : SyncDurable oneDirty ⟨fun _ => Sector.zero, [], [], []⟩ :=
  (syncDurable_iff oneDirty _ oneDirty_mounted).mpr fun i _ => by simp

end Os161.Sfs

import Os161.Sfs.Agreement
import Os161.Sfs.RetrySpec

/-! # Lookups

When `sfs_bmap` without allocation, and with it a read, leaves the volume alone: unless the walk
meets a missing pointer block below the block the inode points to. There it takes a block. -/
namespace Os161.Sfs
open Os161.Lib Kern Vol

variable {v : Vol} {faults : List Bool} {sv : Ptr} {b : UInt32} {w : World} {fb lv : Nat}

/-- A program that leaves free map, vnodes and disk as they are in `v`, never lacks space, and
hands back values in `V`. -/
def LeavesVolume {α : Type} (v : Vol) (V : α → Prop) (p : Kern α) : Prop :=
  p.Keeps (O := machine) (fun w => vol w = v) (fun e => e ≠ .enospc) V

/-- The same of a program that meets none of the faults pending for writes. -/
def ReadsOnly {α : Type} (v : Vol) (faults : List Bool) (V : α → Prop) (p : Kern α) : Prop :=
  p.Keeps (O := machine) (fun w => vol w = v ∧ w.env.writeFaults = faults) (fun e => e ≠ .enospc) V

theorem ReadsOnly.leaves {α : Type} {v : Vol} {V : α → Prop} {p : Kern α}
    (h : ∀ faults, ReadsOnly v faults V p) : LeavesVolume v V p :=
  fun w hw => (h w.env.writeFaults w ⟨hw, rfl⟩).mono (fun _ _ h => ⟨h.1.1, h.2⟩)
    (fun _ _ h => ⟨h.1.1, h.2⟩) fun _ _ h => h.1

/-! ## Reading blocks -/

section Pieces

theorem readsOnly_getFs : ReadsOnly v faults (fun fs => fs = v.fs) getFs := by
  intro w hw
  rw [wp_getFs]
  exact ⟨hw, congrArg Vol.fs hw.1⟩

theorem readsOnly_getVnode : ReadsOnly v faults (fun n => n = v.fs.heap sv) (getVnode sv) := by
  intro w hw
  rw [wp_getVnode]
  refine ⟨hw, ?_⟩
  rw [← hw.1]
  rfl

theorem readsOnly_modifyBufs (f : Bufs → Bufs) :
    ReadsOnly v faults (fun _ => True) (modifyBufs f) := by
  intro w hw
  rw [wp_modifyBufs]
  exact ⟨hw, trivial⟩

theorem readsOnly_check {r : Result} (h : r ≠ some .enospc) :
    ReadsOnly v faults (fun _ => True) (check r) := by
  cases r with
  | none => exact .pure trivial
  | some e => exact .fail fun he => h (congrArg some he)

theorem uiomove_loop_keeps {k : Kernel} {fuel n : Nat} {moved ptr : List UInt8} {u : Uio}
    {r : List UInt8 × Uio × Result} (h : uiomove.loop k fuel moved ptr n u = .ok r) :
    r.2.1.uioRw = u.uioRw ∧ r.2.2 ≠ some .enospc := by
  induction fuel generalizing moved ptr n u with
  | zero =>
    cases h
    exact ⟨rfl, by simp⟩
  | succ fuel ih =>
    rw [uiomove.loop] at h
    split at h
    · dsimp only at h
      split at h
      · cases h
      split at h
      · cases h
        exact ⟨rfl, by simp⟩
      · have := ih h
        exact ⟨this.1, this.2⟩
    · cases h
      exact ⟨rfl, by simp⟩

theorem readsOnly_uiomove (ptr : List UInt8) (n : Nat) (u : Uio) :
    ReadsOnly v faults (fun r => r.2.1.uioRw = u.uioRw ∧ r.2.2 ≠ some .enospc)
      (uiomove ptr n u) := by
  intro w hw
  rw [uiomove, Prog.wp_bind, wp_getKernel]
  dsimp only
  cases h : uiomove.loop w.st n [] ptr n u with
  | error m =>
    rw [wp_ofExcept_error]
    exact hw
  | ok r =>
    rw [wp_ofExcept_ok]
    exact ⟨hw, uiomove_loop_keeps h⟩

theorem readsOnly_request {r : Req} (h : ∀ b s, r ≠ .write b s) :
    ReadsOnly v faults (fun x => x.result ≠ some .enospc) (diskRequest r) := by
  intro w hw
  rw [diskRequest, Prog.wp_request]
  cases r with
  | wait => exact ⟨hw, by simp [serve]⟩
  | write b s => exact absurd rfl (h b s)
  | read b =>
    simp only [serve]
    split
    · exact ⟨hw, by simp⟩
    split
    · exact ⟨hw, by simp⟩
    · exact ⟨hw, by simp⟩

/-- What a transfer out of the file system hands back. -/
def ReadResult (r : Uio × Result) : Prop := r.1.uioRw = .uioRead ∧ r.2 ≠ some .enospc

theorem readsOnly_lhdIo_loop {u : Uio} (hr : u.uioRw = .uioRead) (sector n i : Nat) :
    ReadsOnly v faults ReadResult (lhdIo.loop sector n i u) := by
  induction n generalizing i u with
  | zero => exact .pure ⟨hr, by simp⟩
  | succ n ih =>
    rw [lhdIo.loop]
    refine .bind (readsOnly_request (by simp)) fun _ _ => ?_
    simp only [hr]
    refine .bind (readsOnly_request (by simp)) fun resp hresp => ?_
    cases hx : resp.result with
    | some e => exact .pure ⟨hr, hx ▸ hresp⟩
    | none =>
      refine .bind (readsOnly_uiomove _ _ _) fun x hx => ?_
      obtain ⟨ptr, u', result⟩ := x
      cases result with
      | some e => exact .pure ⟨hx.1.trans hr, hx.2⟩
      | none => exact ih (hx.1.trans hr) _

theorem readsOnly_lhdIo {u : Uio} (hr : u.uioRw = .uioRead) :
    ReadsOnly v faults ReadResult (lhdIo u) := by
  rw [lhdIo]
  refine .bind readsOnly_getFs fun fs _ => ?_
  refine .ite (fun _ => .pure ⟨hr, by simp⟩) fun _ => ?_
  exact .ite (fun _ => .pure ⟨hr, by simp⟩) fun _ => readsOnly_lhdIo_loop hr _ _ _

theorem readsOnly_sfsRwblock {u : Uio} (hr : u.uioRw = .uioRead) :
    ReadsOnly v faults ReadResult (sfsRwblock u) := by
  rw [sfsRwblock]
  generalize 10 = n
  induction n generalizing u with
  | zero =>
    rw [sfsRwblock.retry]
    refine .bind (readsOnly_lhdIo hr) fun x hx => ?_
    refine .ite (fun _ => .stop) fun _ => .ite (fun _ => .pure ⟨hx.1, by simp⟩) fun _ => .pure hx
  | succ n ih =>
    rw [sfsRwblock.retry]
    refine .bind (readsOnly_lhdIo hr) fun x hx => ?_
    exact .ite (fun _ => .stop) fun _ => .ite (fun _ => ih hx.1) fun _ => .pure hx

theorem readsOnly_sfsRblock (b : UInt32) : ReadsOnly v faults (fun _ => True) (sfsRblock b) := by
  rw [sfsRblock]
  refine .bind (readsOnly_sfsRwblock rfl) fun x hx => ?_
  exact .bind (readsOnly_check hx.2) fun _ _ => .pure trivial

theorem readsOnly_bmapReturn (n : Nat) (b : UInt32) :
    ReadsOnly v faults (fun _ => True) (bmapReturn sv n b) := by
  rw [bmapReturn]
  refine .bind readsOnly_getVnode fun _ _ => .ite (fun _ => ?_) fun _ => .pure trivial
  refine .bind (V := fun _ => True) ?_ fun x _ => ?_
  · rw [sfsBused]
    exact .bind readsOnly_getFs fun _ _ => .ite (fun _ => .stop) fun _ => .pure trivial
  · cases x with
    | true => exact .pure trivial
    | false => exact .stop

end Pieces

/-! ## The walk -/

/-- On the path from a pointer block that can be read there is a missing pointer block. -/
def HoleBelow (v : Vol) (b : UInt32) : List Nat → Prop
  | [] | [_] => False
  | j :: path => sectorOf b < v.fs.dBlocks ∧ ∃ h : j < 128,
      (v.disk (sectorOf b)).word ⟨j, h⟩ = 0 ∨ HoleBelow v ((v.disk (sectorOf b)).word ⟨j, h⟩) path

/-- The lookup of a file block meets a missing pointer block below the one the inode points to. -/
def MeetsHole (v : Vol) (sv : Ptr) (fb : Nat) : Prop :=
  (v.fs.heap sv).svI.root (visits fb).1 ≠ 0 ∧
    HoleBelow v ((v.fs.heap sv).svI.root (visits fb).1) (visits fb).2

/-- What a read finds, if it finds anything. -/
theorem wp_sfsRblock_sector (w : World) (b : UInt32) : (sfsRblock b).wp (O := machine)
    ⟨fun s w' => s = (vol w).disk (sectorOf b) ∧ sectorOf b < (vol w).fs.dBlocks ∧
      (w.env.readFaults = [] → w'.env.readFaults = []),
      fun _ _ => w.env.readFaults ≠ [], fun _ _ => ¬ sectorOf b < (vol w).fs.dBlocks⟩ w := by
  refine wp_of_logged (l := []) (wp_sfsRblock_logged ?_ ?_ ?_)
  · exact fun hle _ => Nat.not_lt.mpr hle
  · exact fun hlt _ w' htried _ => ⟨rfl, hlt, htried.calm⟩
  · intro hall _ hnil
    have := hall 0 (by decide)
    simp [hnil] at this

/-- Loading a block that is there, wherever it is. -/
theorem wp_loadbuffer_any {idblock block : UInt32} {level : Nat} {Q : Post machine UInt32}
    (h0 : block ≠ 0)
    (hok : ∀ w', vol w' = vol w → sectorOf block < (vol w).fs.dBlocks →
      (w.env.readFaults = [] → w'.env.readFaults = []) →
      w'.env.writeFaults = w.env.writeFaults →
      w'.st.bufs.blockbuf = ((vol w).disk (sectorOf block)).words → Q.ok idblock w')
    (herr : ∀ e w', vol w' = vol w → e ≠ .enospc → w.env.readFaults ≠ [] → Q.err e w')
    (hstop : ∀ m w', vol w' = vol w → ¬ sectorOf block < (vol w).fs.dBlocks → Q.stopped m w') :
    (loadbuffer sv lv idblock block level).wp Q w := by
  rw [loadbuffer, if_neg h0, Prog.wp_bind]
  have hframe := readsOnly_sfsRblock (v := vol w) block w ⟨rfl, rfl⟩
  refine (hframe.and (wp_sfsRblock_sector w block)).mono ?_ ?_ ?_
  · intro s w' hx
    obtain ⟨⟨⟨hv, hf⟩, -⟩, hs, hlt, hc⟩ := hx
    simp only [Prog.wp_bind, wp_modifyBufs, Prog.wp_pure]
    refine hok _ ?_ hlt hc hf (congrArg Sector.words hs)
    rw [vol_mk, vol_eta]
    exact hv
  · intro e w' hx
    obtain ⟨⟨⟨hv, -⟩, he⟩, hr⟩ := hx
    exact herr e w' hv he hr
  · intro m w' hx
    obtain ⟨⟨hv, -⟩, hn⟩ := hx
    exact hstop m w' hv hn

theorem wp_descend_any {Q : Post machine UInt32} (h0 : b ≠ 0)
    (hok : ∀ w', vol w' = vol w → sectorOf b < (vol w).fs.dBlocks →
      (w.env.readFaults = [] → w'.env.readFaults = []) →
      w'.env.writeFaults = w.env.writeFaults →
      w'.st.bufs.blockbuf = ((vol w).disk (sectorOf b)).words → Q.ok b w')
    (herr : ∀ e w', vol w' = vol w → e ≠ .enospc → w.env.readFaults ≠ [] → Q.err e w')
    (hstop : ∀ m w', vol w' = vol w → ¬ sectorOf b < (vol w).fs.dBlocks → Q.stopped m w') :
    (descend sv lv b).wp Q w := by
  rw [descend, Prog.wp_bind, wp_modifyBufs]
  exact wp_loadbuffer_any
    (w := ⟨⟨w.st.fs, { w.st.bufs with blockbuf := fun _ => 0 }⟩, w.env⟩) h0 hok herr hstop

/-- Below a missing block a block is taken. -/
theorem wp_descend_leak {Q : Post machine UInt32} (hg : Geo (vol w))
    (hw : w.env.writeFaults = [])
    (hok : ∀ c w', Fresh (vol w) c → Calm w w' → vol w' = (vol w).leak sv c →
      w'.st.bufs.blockbuf = (fun _ => 0) → Q.ok c w')
    (herr : ∀ w', Q.err .enospc w') : (descend sv lv 0).wp Q w := by
  rw [descend, Prog.wp_bind, wp_modifyBufs]
  refine wp_loadbuffer_leak
    (w := ⟨⟨w.st.fs, { w.st.bufs with blockbuf := fun _ => 0 }⟩, w.env⟩) hg hw ?_ fun _ => herr _
  exact fun c w' hc hcalm => hok c w' hc ⟨hcalm.reads, hcalm.writes, hcalm.mem⟩

/-- The buffer holds the sector of a pointer block. -/
structure Loaded (v : Vol) (b : UInt32) (w : World) : Prop where
  vol : vol w = v
  lt : sectorOf b < v.fs.dBlocks
  buf : w.st.bufs.blockbuf = (v.disk (sectorOf b)).words

theorem wp_getBlock_lookup {j : Nat} {Q : Post machine UInt32} (h : Loaded v b w)
    (hok : ∀ hj : j < 128, Q.ok ((v.disk (sectorOf b)).word ⟨j, hj⟩) w)
    (hstop : ¬ j < 128 → ∀ m, Q.stopped m w) : (getBlock sv false b j).wp Q w := by
  by_cases hj : j < 128
  · simp only [getBlock, sfsDbperidb, dif_pos hj, Prog.wp_bind, wp_getKernel, Bool.false_eq_true,
      and_false, if_false, Prog.wp_pure, h.buf]
    exact hok hj
  · exact wp_getBlock_outside hj (hstop hj _)

theorem wp_walkAlong_cons {j k : Nat} {path : List Nat} {doalloc : Bool}
    {Q : Post machine UInt32}
    (h : (getBlock sv doalloc b j).wp ⟨fun d w' => (descend sv lv d).wp
      ⟨fun b' w'' => (walkAlong sv doalloc lv b' (k :: path)).wp Q w'', Q.err, Q.stopped⟩ w',
      Q.err, Q.stopped⟩ w) : (walkAlong sv doalloc lv b (j :: k :: path)).wp Q w := by
  rw [walkAlong, Prog.wp_bind]
  · refine h.mono (fun d w' hd => ?_) (fun _ _ h => h) fun _ _ h => h
    dsimp only
    rw [Prog.wp_bind]
    exact hd
  · simp

/-- Without a missing block on the way the walk only reads. -/
theorem readsOnly_walkAlong {path : List Nat} (hp : path ≠ []) (h : Loaded v b w)
    (hno : ¬ HoleBelow v b path) :
    (walkAlong sv false lv b path).wp ⟨fun _ w' => vol w' = v,
      fun e w' => vol w' = v ∧ e ≠ .enospc, fun _ w' => vol w' = v⟩ w := by
  induction path generalizing b w with
  | nil => exact absurd rfl hp
  | cons j path ih =>
    cases path with
    | nil => exact wp_getBlock_lookup h (fun _ => h.vol) fun _ _ => h.vol
    | cons k path =>
      refine wp_walkAlong_cons (wp_getBlock_lookup h (fun hj => ?_) fun _ _ => h.vol)
      have hne : (v.disk (sectorOf b)).word ⟨j, hj⟩ ≠ 0 := fun h0 => hno ⟨h.lt, hj, .inl h0⟩
      have hrest : ¬ HoleBelow v ((v.disk (sectorOf b)).word ⟨j, hj⟩) (k :: path) :=
        fun hb => hno ⟨h.lt, hj, .inr hb⟩
      obtain rfl := h.vol
      refine wp_descend_any hne ?_ (fun e w' hv he _ => ⟨hv, he⟩) fun _ _ hv _ => hv
      exact fun w' hv hlt _ _ hbuf => ih (by simp) ⟨hv, hlt, hbuf⟩ hrest

/-- Something was taken, or there was nothing to take. -/
def Took (v : Vol) : Post machine UInt32 :=
  ⟨fun _ w' => vol w' ≠ v, fun e w' => e = .enospc ∨ vol w' ≠ v, fun _ w' => vol w' ≠ v⟩

/-- Once the buffer is empty the walk goes on taking blocks. -/
theorem wp_walkAlong_taking {path : List Nat} (hp : path ≠ []) (hg : Geo (vol w))
    (hw : w.env.writeFaults = []) (hbuf : w.st.bufs.blockbuf = fun _ => 0) {c : UInt32}
    (hc : (vol w).isset c = true) (hv : v.isset c = false) :
    (walkAlong sv false lv b path).wp (Took v) w := by
  have hne {w' : World} (hc' : (vol w').isset c = true) : vol w' ≠ v := by
    intro hx
    obtain rfl := hx
    rw [hc'] at hv
    cases hv
  induction path generalizing b w with
  | nil => exact absurd rfl hp
  | cons j path ih =>
    cases path with
    | nil => exact wp_getBlock_empty hbuf (fun _ => hne hc) fun _ => hne hc
    | cons k path =>
      refine wp_walkAlong_cons (wp_getBlock_empty hbuf (fun _ => ?_) fun _ => hne hc)
      refine wp_descend_leak hg hw ?_ fun _ => .inl rfl
      intro d w' hd hcalm hv' hb
      refine ih (by simp) ?_ (hcalm.writes hw) hb ?_
      · rw [hv']
        exact hg.mark (.leak _ sv d) rfl
      · have hset : (vol w').isset c = ((vol w).isset c || decide (c = d)) := by
          rw [hv']
          exact isset_alloc _ _ _
        rw [hset, hc, Bool.true_or]

/-- At a missing block on the way the walk takes one. -/
theorem wp_walkAlong_hole {path : List Nat} (hg : Geo v) (h : Loaded v b w)
    (hw : w.env.writeFaults = []) (hr : w.env.readFaults = []) (hhole : HoleBelow v b path) :
    (walkAlong sv false lv b path).wp (Took v) w := by
  induction path generalizing b w with
  | nil => exact hhole.elim
  | cons j path ih =>
    cases path with
    | nil => exact hhole.elim
    | cons k path =>
      obtain ⟨-, hj, hhole⟩ := hhole
      refine wp_walkAlong_cons (wp_getBlock_lookup h (fun _ => ?_) fun hn => absurd hj hn)
      obtain rfl := h.vol
      by_cases h0 : ((vol w).disk (sectorOf b)).word ⟨j, hj⟩ = 0
      · rw [h0]
        refine wp_descend_leak hg hw ?_ fun _ => .inl rfl
        intro c w' hc hcalm hv hb
        refine wp_walkAlong_taking (by simp) ?_ (hcalm.writes hw) hb (c := c) ?_ hc.clear
        · rw [hv]
          exact hg.mark (.leak _ sv c) rfl
        · have hset : (vol w').isset c = ((vol w).isset c || decide (c = c)) := by
            rw [hv]
            exact isset_alloc _ _ _
          rw [hset, decide_eq_true rfl, Bool.or_true]
      · have hhole := hhole.resolve_left h0
        have hlt : sectorOf (((vol w).disk (sectorOf b)).word ⟨j, hj⟩) < (vol w).fs.dBlocks := by
          cases path with
          | nil => exact hhole.elim
          | cons i path => exact hhole.1
        refine wp_descend_any h0 ?_ ?_ ?_
        · exact fun w' hv hlt hcalm hf hbuf => ih ⟨hv, hlt, hbuf⟩ (hf.trans hw) (hcalm hr) hhole
        · exact fun _ _ _ _ hne => absurd hr hne
        · exact fun m w' _ hn => absurd hlt hn

/-! ## The whole of `sfs_bmap` -/

theorem leaves_sfsBmap (hno : Accepted fb → ¬ MeetsHole v sv fb) :
    LeavesVolume v (fun _ => True) (sfsBmap sv fb false) := by
  by_cases hacc : Accepted fb
  · by_cases hfb : fb < 15
    · simp only [sfsBmap, sfsNdirect, dif_pos hfb, Bool.false_eq_true, and_false, if_false]
      exact ReadsOnly.leaves fun _ => .bind readsOnly_getVnode fun _ _ => readsOnly_bmapReturn _ _
    · obtain ⟨n, heq⟩ := sfsBmap_eq sv false (Nat.not_lt.mp hfb) hacc
      intro w hx
      obtain rfl := hx
      rw [heq, Prog.wp_bind, wp_getVnode]
      dsimp only
      by_cases h0 : (w.st.fs.heap sv).svI.root (visits fb).1 = 0
      · rw [if_pos ⟨h0, Bool.false_ne_true⟩, Prog.wp_pure]
        exact ⟨rfl, trivial⟩
      rw [if_neg fun hc => h0 hc.1, Prog.wp_bind]
      refine wp_loadbuffer_any h0 ?_ (fun e w' hv he _ => ⟨hv, he⟩) fun _ _ hv _ => hv
      intro w' hv hlt _ _ hbuf
      have hp : (visits fb).2 ≠ [] := by
        unfold visits
        rw [dif_neg hfb]
        repeat' split
        all_goals simp [subscripts]
      dsimp only
      rw [Prog.wp_bind]
      refine (readsOnly_walkAlong hp ⟨hv, hlt, hbuf⟩ fun hb => hno hacc ⟨h0, hb⟩).mono
        (fun d w'' hv' => ?_) (fun _ _ h => h) fun _ _ h => h
      exact ReadsOnly.leaves (fun _ => readsOnly_bmapReturn n d) w'' hv'
  · refine fun w hw => wp_sfsBmap_beyond ?_ ⟨hw, by decide⟩
    simp only [Accepted] at hacc
    simp only [doubleLimit]
    omega

/-- The same volume with no faults to come. -/
def quietWorld (v : Vol) : World where
  st := ⟨v.fs, ⟨fun _ => 0, Sector.zero, fun _ => 0⟩⟩
  env := ⟨v.disk, [], [], []⟩

theorem sfsBmap_takes (hg : Geo v) (hacc : Accepted fb) (hhole : MeetsHole v sv fb) :
    (sfsBmap sv fb false).wp (Took v) (quietWorld v) := by
  obtain ⟨h0, hhole⟩ := hhole
  have hfb : ¬ fb < 15 := by
    intro hfb
    rw [visits, dif_pos hfb] at hhole
    exact hhole
  obtain ⟨n, heq⟩ := sfsBmap_eq sv false (Nat.not_lt.mp hfb) hacc
  rw [heq, Prog.wp_bind, wp_getVnode]
  dsimp only
  have hlt : sectorOf ((v.fs.heap sv).svI.root (visits fb).1) < v.fs.dBlocks := by
    generalize (visits fb).2 = path at hhole
    cases path with
    | nil => exact absurd hhole id
    | cons i rest =>
      cases rest with
      | nil => exact absurd hhole id
      | cons j rest => exact hhole.1
  rw [if_neg fun hc => h0 hc.1, Prog.wp_bind]
  refine wp_loadbuffer_any h0 ?_ (fun _ _ _ _ hne => absurd rfl hne)
    fun _ _ _ hn => absurd hlt hn
  intro w' hv hlt hr hf hbuf
  dsimp only
  rw [Prog.wp_bind]
  refine (wp_walkAlong_hole hg ⟨hv, hlt, hbuf⟩ hf (hr rfl) hhole).mono ?_ (fun _ _ h => h)
    fun _ _ h => h
  intro d w'' hne
  refine (ReadsOnly.leaves (fun _ => readsOnly_bmapReturn n d) w'' rfl).mono (fun _ w₃ h => ?_)
    (fun _ w₃ h => .inr ?_) fun _ w₃ h => ?_
  · show vol w₃ ≠ v
    rw [h.1]
    exact hne
  · rw [h.1]
    exact hne
  · show vol w₃ ≠ v
    rw [h]
    exact hne

theorem not_leaves_of_took {p : Kern UInt32} (hp : p.wp (Took v) (quietWorld v)) :
    ¬ LeavesVolume v (fun _ => True) p := by
  intro h
  have := (h (quietWorld v) rfl).and hp
  rw [Prog.wp_iff] at this
  generalize p.run machine (quietWorld v) = r at this
  obtain ⟨o, w'⟩ := r
  cases o with
  | ok d => exact this.2 this.1.1
  | err e => exact this.2.elim this.1.2 fun h => h this.1.1
  | stopped m => exact this.2 this.1

theorem leaves_sfsBmap_iff (hg : Geo v) (hacc : Accepted fb) :
    LeavesVolume v (fun _ => True) (sfsBmap sv fb false) ↔ ¬ MeetsHole v sv fb :=
  ⟨fun h hhole => not_leaves_of_took (sfsBmap_takes hg hacc hhole) h,
    fun hno => leaves_sfsBmap fun _ => hno⟩

/-! ## Reads -/

/-- A kind of statement on programs and the values they hand back that holds of all programs that
only read, and passes on to what is put together from programs it holds of. -/
structure ReadLogic (K : (α : Type) → (α → Prop) → Kern α → Prop) : Prop where
  reads : ∀ {α : Type} {V : α → Prop} {p : Kern α}, (∀ v faults, ReadsOnly v faults V p) → K α V p
  bind : ∀ {α β : Type} {V : α → Prop} {W : β → Prop} {p : Kern α} {f : α → Kern β},
    K α V p → (∀ a, V a → K β W (f a)) → K β W (p >>= f)
  attempt : ∀ {α : Type} {V : α → Prop} {p : Kern α}, K α V p →
    K (Except Errno α) (fun r => match r with | .ok a => V a | .error e => e ≠ .enospc) p.attempt

theorem leaves_readLogic (v : Vol) : ReadLogic fun _ => LeavesVolume v where
  reads h := ReadsOnly.leaves fun faults => h v faults
  bind hp hf := .bind hp hf
  attempt hp := .mono (.attempt hp) fun r h => by cases r <;> exact h

namespace ReadLogic

variable {K : (α : Type) → (α → Prop) → Kern α → Prop} {α : Type} {V : α → Prop} {u : Uio}

theorem ite {c : Prop} [Decidable c] {p q : Kern α} (hp : c → K α V p) (hq : ¬ c → K α V q) :
    K α V (if c then p else q) := by
  split
  · next h => exact hp h
  · next h => exact hq h

variable (hK : ReadLogic K)
include hK

theorem pure {a : α} (h : V a) : K α V (Pure.pure a) := hK.reads fun _ _ => .pure h

theorem stop {m : Stop} : K α V (Prog.stop m) := hK.reads fun _ _ => .stop

theorem getVnode : K _ (fun _ => True) (getVnode sv) :=
  hK.reads fun _ _ => readsOnly_getVnode.mono fun _ _ => trivial

theorem partialio_move (hr : u.uioRw = .uioRead) (skipstart len : Nat) (d : UInt32)
    (s : Sector) : K _ ReadResult (sfsPartialio.move u skipstart len d s) := by
  rw [sfsPartialio.move]
  refine hK.bind (hK.reads fun _ _ => readsOnly_modifyBufs _) fun _ _ => ?_
  refine ite (fun _ => hK.stop) fun _ => ?_
  refine hK.bind (hK.reads fun _ _ => readsOnly_uiomove _ _ u) fun x hx => ?_
  obtain ⟨moved, u', result⟩ := x
  have hr' := hx.1.trans hr
  cases result with
  | some e => exact hK.pure ⟨hr', hx.2⟩
  | none =>
    refine hK.bind (hK.reads fun _ _ => readsOnly_modifyBufs _) fun _ _ => ?_
    refine ite (fun hw => ?_) fun _ => hK.pure ⟨hr', by simp⟩
    rw [hr'] at hw
    cases hw

theorem uiomovezeros (hr : u.uioRw = .uioRead) (n : Nat) :
    K _ ReadResult (uiomovezeros n u) := by
  have hloop (fuel : Nat) : ∀ n u, u.uioRw = .uioRead →
      K _ ReadResult (uiomovezeros.loop fuel n u) := by
    induction fuel with
    | zero => exact fun n u hr => hK.pure ⟨hr, by simp⟩
    | succ fuel ih =>
      intro n u hr
      rw [uiomovezeros.loop]
      refine ite (fun _ => ?_) fun _ => hK.pure ⟨hr, by simp⟩
      refine hK.bind (hK.reads fun _ _ => readsOnly_uiomove _ _ u) fun x hx => ?_
      obtain ⟨ptr, u', result⟩ := x
      cases result with
      | some e => exact hK.pure ⟨hx.1.trans hr, hx.2⟩
      | none => exact ih _ _ (hx.1.trans hr)
  rw [Sfs.uiomovezeros, if_pos hr]
  exact hloop n n u hr

theorem sfsIo_out (hr : u.uioRw = .uioRead) (extraresid : Nat) {result : Result}
    (h : result ≠ some .enospc) : K _ ReadResult (sfsIo.out sv u extraresid result) := by
  rw [sfsIo.out]
  refine hK.bind hK.getVnode fun n _ => ?_
  have hno : ¬ (u.uioRw = .uioWrite ∧ u.uioOffset > i32 n.svI.sfiSize.toNat) := by
    rw [hr]
    exact fun hc => by cases hc.1
  rw [if_neg hno]
  exact hK.pure ⟨hr, h⟩

/-! What holds of all lookups in a file holds of all reads of it. -/

variable (hmap : ∀ fb, K _ (fun _ => True) (sfsBmap sv fb false))
include hmap

theorem partialio_load (hr : u.uioRw = .uioRead) (fb : Nat) :
    K _ (fun _ => True) (sfsPartialio.load sv u fb) := by
  simp only [sfsPartialio.load, hr, reduceCtorEq, decide_false]
  refine hK.bind (hmap fb) fun d _ => ite (fun _ => hK.pure trivial) fun _ => ?_
  exact hK.bind (hK.reads fun _ _ => readsOnly_sfsRblock d) fun _ _ => hK.pure trivial

theorem sfsPartialio (hr : u.uioRw = .uioRead) (skipstart len : Nat) :
    K _ ReadResult (sfsPartialio sv u skipstart len) := by
  rw [Sfs.sfsPartialio]
  refine ite (fun _ => hK.stop) fun _ => ?_
  refine hK.bind (hK.attempt (hK.partialio_load hmap hr _)) fun x hx => ?_
  cases x with
  | error e => exact hK.pure ⟨hr, fun h => hx (Option.some.inj h)⟩
  | ok x => exact hK.partialio_move hr _ _ _ _

theorem sfsBlockio (hr : u.uioRw = .uioRead) : K _ ReadResult (sfsBlockio sv u) := by
  simp only [Sfs.sfsBlockio, hr, reduceCtorEq, decide_false, if_true]
  refine hK.bind (hK.attempt (hmap _)) fun x hx => ?_
  cases x with
  | error e => exact hK.pure ⟨hr, fun h => hx (Option.some.inj h)⟩
  | ok d =>
    refine ite (fun _ => hK.uiomovezeros hr _) fun _ => ite (fun _ => hK.stop) fun _ => ?_
    rw [sfsBlockio.transfer]
    refine hK.bind (hK.reads fun _ _ => readsOnly_sfsRwblock ?_) fun x hx => hK.pure hx
    exact hr

theorem sfsIo_blocks (n : Nat) (hr : u.uioRw = .uioRead) :
    K _ ReadResult (sfsIo.blocks sv n u) := by
  induction n generalizing u with
  | zero => exact hK.pure ⟨hr, by simp⟩
  | succ n ih =>
    rw [sfsIo.blocks]
    refine hK.bind (hK.sfsBlockio hmap hr) fun x hx => ?_
    obtain ⟨u', result⟩ := x
    cases result with
    | some e => exact hK.pure hx
    | none => exact ih hx.1

theorem sfsIo_aligned (hr : u.uioRw = .uioRead) : K _ ReadResult (sfsIo.aligned sv u) := by
  rw [sfsIo.aligned]
  refine ite (fun _ => hK.pure ⟨hr, by simp⟩) fun _ => ite (fun _ => hK.stop) fun _ => ?_
  refine hK.bind (hK.sfsIo_blocks hmap _ hr) fun x hx => ?_
  obtain ⟨u', result⟩ := x
  cases result with
  | some e => exact hK.pure hx
  | none =>
    refine ite (fun _ => hK.stop) fun _ => ite (fun _ => ?_) fun _ => hK.pure ⟨hx.1, by simp⟩
    exact hK.sfsPartialio hmap hx.1 _ _

theorem sfsIo_body (hr : u.uioRw = .uioRead) : K _ ReadResult (sfsIo.body sv u) := by
  rw [sfsIo.body]
  refine ite (fun _ => ?_) fun _ => hK.sfsIo_aligned hmap hr
  refine hK.bind (hK.sfsPartialio hmap hr _ _) fun x hx => ?_
  obtain ⟨u', result⟩ := x
  cases result with
  | some e => exact hK.pure hx
  | none => exact hK.sfsIo_aligned hmap hx.1

theorem sfsIo (hr : u.uioRw = .uioRead) : K _ ReadResult (sfsIo sv u) := by
  rw [Sfs.sfsIo]
  refine hK.bind hK.getVnode fun n _ => ?_
  refine ite (fun _ => hK.pure ⟨hr, by simp⟩) fun _ => ite (fun _ => ?_) fun _ => ?_
  · refine ite (fun _ => ?_) fun _ => hK.stop
    exact hK.bind (hK.sfsIo_body hmap hr) fun x hx => hK.sfsIo_out hx.1 _ hx.2
  · exact hK.bind (hK.sfsIo_body hmap hr) fun x hx => hK.sfsIo_out hx.1 _ hx.2

end ReadLogic

/-! ## A sparse file -/

/-- The small volume after file block 271 of the empty file was written: the double indirect block
is 4, its second entry is 5, and the first entry of that is the data block 6. -/
def sparseVolume : Vol :=
  (((vol smallVolume).plant 0 .double 4).graft 0 4 1 5).graft 0 5 0 6

theorem sparseVolume_geo : Geo sparseVolume := by
  have hg := smallVolume_ready.core.toGeo
  have h₁ : Geo ((vol smallVolume).plant 0 .double 4) := hg.mark (.plant _ 0 .double 4) rfl
  have h₂ : Geo (((vol smallVolume).plant 0 .double 4).graft 0 4 1 5) :=
    h₁.mark (.graft _ 0 4 1 5) rfl
  exact h₂.mark (.graft _ 0 5 0 6) rfl

theorem sparseVolume_double (j : Fin 128) :
    (sparseVolume.disk (sectorOf 4)).word j = if j = 1 then 5 else 0 := by
  have hsector : sectorOf 4 = (4 : UInt32).toNat := sectorOf_of_lt (by decide)
  have hdisk : sparseVolume.disk (4 : UInt32).toNat = setWord Sector.zero 1 5 := by
    rw [sparseVolume, graft_disk, if_neg (by decide), if_neg (by decide), graft_disk, if_pos rfl]
    congr 1
  rw [hsector, hdisk, setWord, Sector.word_ofWords, Sector.word_zero]

/-! ## Lookups are read-only where they meet no hole -/

/-- All lookups of accepted file blocks and all reads leave the volume alone and never report
`ENOSPC`. -/
structure LookupsReadOnly (v : Vol) (sv : Ptr) : Prop where
  lookup : ∀ fb, Accepted fb → LeavesVolume v (fun _ => True) (sfsBmap sv fb false)
  read : ∀ u : Uio, u.uioRw = .uioRead →
    LeavesVolume v (fun r => r.2 ≠ some .enospc) (sfsIo sv u)

/-- Lookups and reads of a file are read-only if and only if none of its accepted file blocks
lies below a missing pointer block that is not the inode's own, and so it is for each block. -/
theorem lookupsReadOnly_iff (v : Vol) (sv : Ptr) (hg : Geo v) :
    (LookupsReadOnly v sv ↔ ∀ fb, Accepted fb → ¬ MeetsHole v sv fb) ∧
      ∀ fb, Accepted fb →
        (LeavesVolume v (fun _ => True) (sfsBmap sv fb false) ↔ ¬ MeetsHole v sv fb) := by
  refine ⟨⟨fun h fb hacc => (leaves_sfsBmap_iff hg hacc).mp (h.lookup fb hacc), fun h => ?_⟩,
    fun fb hacc => leaves_sfsBmap_iff hg hacc⟩
  have hmap (fb : Nat) : LeavesVolume v (fun _ => True) (sfsBmap sv fb false) :=
    leaves_sfsBmap (h fb)
  exact ⟨fun fb _ => hmap fb, fun u hr =>
    ((leaves_readLogic v).sfsIo hmap hr).mono fun _ h => h.2⟩

theorem lookupsReadOnly_iff_sparse :
    LeavesVolume sparseVolume (fun _ => True) (sfsBmap 0 271 false) ∧
      (LookupsReadOnly sparseVolume 0 ↔ ∀ fb, Accepted fb → ¬ MeetsHole sparseVolume 0 fb) := by
  have h := lookupsReadOnly_iff sparseVolume 0 sparseVolume_geo
  have hacc : Accepted 271 := by
    simp only [Accepted]
    omega
  refine ⟨(h.2 271 hacc).mpr fun hm => ?_, h.1⟩
  have hvis : visits 271 = (.double, [1, 0]) := rfl
  have hroot : (sparseVolume.fs.heap 0).svI.root .double = 4 := rfl
  rw [MeetsHole, hvis, hroot] at hm
  obtain ⟨-, -, hj, h0 | hf⟩ := hm
  · have h5 : (sparseVolume.disk (sectorOf 4)).word 1 = 5 := sparseVolume_double 1
    exact absurd (h5.symm.trans h0) (by decide)
  · exact hf

/-- A lookup of file block 143 takes block 7. -/
theorem lookup_takes : ¬ LookupsReadOnly sparseVolume 0 := by
  have hacc : Accepted 143 := by
    simp only [Accepted]
    omega
  have hvis : visits 143 = (.double, [0, 0]) := rfl
  have hroot : (sparseVolume.fs.heap 0).svI.root .double = 4 := rfl
  have hsector : sectorOf 4 = (4 : UInt32).toNat := sectorOf_of_lt (by decide)
  have hhole : MeetsHole sparseVolume 0 143 := by
    rw [MeetsHole, hvis, hroot]
    refine ⟨by decide, ?_, by decide, .inl ?_⟩
    · rw [hsector]
      decide
    · exact sparseVolume_double 0
  exact fun h => (leaves_sfsBmap_iff sparseVolume_geo hacc).mp (h.lookup 143 hacc) hhole

end Os161.Sfs

import Os161.Sfs.Residues
import Os161.Sfs.Lookups

/-! # Loading a segment

`load_segment` reads a stretch of the executable through a uio whose iovec is as long as the
segment in memory, and fills the rest of it with zeros. -/
namespace Os161.Sfs
open Os161.Lib Kern Vol

inductive LoadError where
  | vop (e : Errno)
  | enoexec
  deriving DecidableEq

/-- The uio for `VOP_READ`; `mapped` bytes of memory from the address of the segment are there. -/
def segmentUio (mapped : Nat) (offset : Int) (memsize filesize : Nat) : Uio where
  iovBase := fun _ => []
  iovPos := 0
  iovLen := memsize
  iovOut := []
  iovMapped := mapped
  uioOffset := offset
  uioResid := filesize
  uioRw := .uioRead

/-- `load_segment` from the return of `VOP_READ` on. -/
def loadSegment.fill (memsize filesize : Nat) (u : Uio) : Kern (Uio × Option LoadError) :=
  if u.uioResid ≠ 0 then return (u, some .enoexec)
  else if memsize - filesize > 0 then do
    let (u, result) ← uiomovezeros (memsize - filesize)
      { u with uioResid := u32 ((u.uioResid : Int) + (memsize - filesize : Nat)) }
    return (u, result.map .vop)
  else return (u, none)

def loadSegment (v : Ptr) (mapped : Nat) (offset : Int) (memsize filesize : Nat) :
    Kern (Uio × Option LoadError) := do
  let filesize := if filesize > memsize then memsize else filesize
  let (u, result) ← vopRead v (segmentUio mapped offset memsize filesize)
  match result with
  | some e => return (u, some (.vop e))
  | none => loadSegment.fill memsize filesize u

/-- Memory with a segment of `memsize` bytes at `vaddr`: bytes of the file from `offset`, then
zeros. -/
def segment (mem : Nat → UInt8) (f : SparseArray UInt8) (vaddr memsize offset filesize : Nat) :
    Nat → UInt8 := fun x =>
  if vaddr ≤ x ∧ x < vaddr + memsize then
    if x - vaddr < filesize then f.get (offset + (x - vaddr)) else 0
  else mem x

/-- What `load_segment` hands back, and the memory with what went through the uio at `vaddr`. The
file has `min filesize memsize` bytes from `offset`, or it is no executable. -/
structure LoadedSegment (mem : Nat → UInt8) (f : SparseArray UInt8)
    (vaddr memsize offset filesize : Nat) (r : Uio × Option LoadError) : Prop where
  result : r.2 = if min filesize memsize ≤ f.size - offset then none else some .enoexec
  memory : r.2 = none → overlay mem vaddr r.1.iovOut =
    segment mem f vaddr memsize offset (min filesize memsize)

/-! ## Running out of space -/

/-- A program that hands back values in `V` and no `ENOSPC`, unless an allocation finds no space. -/
def FindsSpace {α : Type} (V : α → Prop) (p : Kern α) : Prop :=
  p.Unless machine .noSpace (fun e => e ≠ .enospc) V

theorem findsSpace_readLogic : ReadLogic fun _ => FindsSpace where
  reads h := .of_wp fun w => (h (vol w) w.env.writeFaults w ⟨rfl, rfl⟩).mono (fun _ _ h => h.2)
    (fun _ _ h => h.2) fun _ _ _ => trivial
  bind hp hf := .bind hp hf
  attempt hp := .mono (.attempt hp) fun r h => by cases r <;> exact h

namespace FindsSpace

theorem getBlock (sv : Ptr) (b : UInt32) (j : Nat) :
    FindsSpace (fun _ => True) (getBlock sv false b j) := by
  refine .of_wp fun w => ?_
  rw [Sfs.getBlock]
  split
  · simp only [Prog.wp_bind, wp_getKernel, Bool.false_eq_true, and_false, if_false, Prog.wp_pure]
  · rw [Prog.wp_stop]
    trivial

/-- A write returns 0 or stops. -/
theorem sfsWblock (data : Kernel → Sector) (b : UInt32) :
    FindsSpace (fun _ => True) (sfsWblock data b) :=
  .of_wp fun _ => wp_of_logged (l := [])
    (wp_sfsWblock_logged (fun _ _ => trivial) fun _ _ => trivial)

theorem sfsBalloc : FindsSpace (fun _ => True) sfsBalloc := by
  rw [Sfs.sfsBalloc]
  refine .bind (V := fun _ => True) (.of_wp fun w => by rw [wp_getFs]; trivial) fun fs _ => ?_
  refine .bind (V := fun _ => True) ?_ fun r _ => ?_
  · cases bitmapAlloc fs.sfsFreemap with
    | error m => exact .of_wp fun w => by rw [wp_ofExcept_error]; trivial
    | ok r => exact .of_wp fun w => by rw [wp_ofExcept_ok]; trivial
  · cases r with
    | none => exact .mark _
    | some r =>
      refine .bind (V := fun _ => True) (.of_wp fun w => by rw [wp_modifyFs]; trivial) fun _ _ => ?_
      refine Prog.Unless.ite (fun _ => .stop) fun _ => ?_
      exact .bind (sfsWblock _ _) fun _ _ => .pure trivial

theorem loadbuffer (sv : Ptr) (lv : Nat) (b block : UInt32) (level : Nat) :
    FindsSpace (fun _ => True) (loadbuffer sv lv b block level) := by
  rw [Sfs.loadbuffer]
  refine Prog.Unless.ite (fun _ => ?_) fun _ => ?_
  · refine .bind sfsBalloc fun c _ => .of_wp fun w => ?_
    split <;> simp only [Prog.wp_bind, wp_modifyInode, wp_setDirty, wp_modifyBufs, Prog.wp_pure]
  · refine .bind (findsSpace_readLogic.reads fun _ _ => readsOnly_sfsRblock block) fun s _ => ?_
    exact .of_wp fun w => by simp only [Prog.wp_bind, wp_modifyBufs, Prog.wp_pure]

theorem descend (sv : Ptr) (lv : Nat) (b : UInt32) :
    FindsSpace (fun _ => True) (descend sv lv b) :=
  .bind (V := fun _ => True) (.of_wp fun w => by rw [wp_modifyBufs]; trivial) fun _ _ =>
    loadbuffer sv lv b b 1

theorem bmapWalk (sv : Ptr) (lv : Nat) (b : UInt32) (fb : Nat) :
    FindsSpace (fun _ => True) (bmapWalk sv false lv b fb) := by
  rw [Sfs.bmapWalk]
  refine Prog.Unless.ite (fun _ => getBlock _ _ _) fun _ => ?_
  refine Prog.Unless.ite (fun _ => ?_) fun _ => ?_
  · refine .bind (getBlock _ _ _) fun _ _ => .bind (descend _ _ _) fun _ _ => ?_
    exact getBlock _ _ _
  · refine .bind (getBlock _ _ _) fun _ _ => .bind (descend _ _ _) fun _ _ => ?_
    refine .bind (getBlock _ _ _) fun _ _ => .bind (descend _ _ _) fun _ _ => ?_
    exact getBlock _ _ _

theorem bmapReturn (sv : Ptr) (n : Nat) (b : UInt32) :
    FindsSpace (fun _ => True) (bmapReturn sv n b) :=
  findsSpace_readLogic.reads fun _ _ => readsOnly_bmapReturn n b

theorem sfsBmap (sv : Ptr) (fb : Nat) : FindsSpace (fun _ => True) (sfsBmap sv fb false) := by
  rw [Sfs.sfsBmap]
  split
  · refine .bind findsSpace_readLogic.getVnode fun n _ => ?_
    simp only [Bool.false_eq_true, and_false, if_false]
    exact bmapReturn _ _ _
  · refine Prog.Unless.ite (fun _ => .fail (by simp)) fun _ => ?_
    refine .bind findsSpace_readLogic.getVnode fun n _ => ?_
    refine Prog.Unless.ite (fun _ => .pure trivial) fun _ => ?_
    refine .bind (loadbuffer _ _ _ _ _) fun _ _ => .bind (bmapWalk _ _ _ _) fun _ _ => ?_
    exact bmapReturn _ _ _

/-- Loading a segment reports `ENOSPC` only if an allocation found no space. -/
theorem loadSegment (sv : Ptr) (mapped : Nat) (offset : Int) (memsize filesize : Nat) :
    FindsSpace (fun r => r.2 ≠ some (.vop .enospc))
      (loadSegment sv mapped offset memsize filesize) := by
  rw [Sfs.loadSegment]
  generalize (if filesize > memsize then memsize else filesize) = n
  refine .bind (V := ReadResult) ?_ fun r hr => ?_
  · rw [vopRead]
    refine .bind findsSpace_readLogic.getVnode fun x _ => ?_
    cases x.vnOps with
    | sfsFileops =>
      dsimp only
      rw [sfsRead, if_pos (show (segmentUio mapped offset memsize n).uioRw = .uioRead from rfl)]
      exact findsSpace_readLogic.sfsIo (sfsBmap sv) rfl
    | sfsDirops => exact .pure ⟨rfl, by simp⟩
  · obtain ⟨u, result⟩ := r
    cases result with
    | some e => exact .pure fun h => hr.2 (congrArg some (LoadError.vop.inj (Option.some.inj h)))
    | none =>
      dsimp only
      rw [loadSegment.fill]
      refine Prog.Unless.ite (fun _ => .pure (by simp)) fun _ => ?_
      refine Prog.Unless.ite (fun _ => ?_) fun _ => .pure (by simp)
      refine .bind (V := ReadResult) ?_ fun r hr => ?_
      · refine findsSpace_readLogic.uiomovezeros ?_ _
        exact hr.1
      · refine .pure fun h => hr.2 ?_
        obtain ⟨u, result⟩ := r
        cases result with
        | none => cases h
        | some e => exact congrArg some (LoadError.vop.inj (Option.some.inj h))

end FindsSpace

section Load

variable {L : UInt32 → Prop} {w : World} {sv : Ptr} {u : Uio} {f : SparseArray UInt8}
  {mem : Nat → UInt8} {mapped vaddr memsize offset filesize : Nat}

/-! ## The rest of the segment -/

/-- Bytes of the file and zeros after one another are a segment. -/
theorem overlay_segment {l : List UInt8} (hl : l = slice f.get offset l.length)
    (hle : l.length ≤ memsize) :
    overlay mem vaddr (l ++ List.replicate (memsize - l.length) 0) =
      segment mem f vaddr memsize offset l.length := by
  have hlen : (l ++ List.replicate (memsize - l.length) 0).length = memsize := by
    rw [List.length_append, List.length_replicate]
    omega
  funext x
  unfold segment
  by_cases hx : vaddr ≤ x ∧ x < vaddr + memsize
  · rw [if_pos hx, overlay_of_mem hx.1 (by omega)]
    by_cases hxl : x - vaddr < l.length
    · have hget : l[x - vaddr]? = some (f.get (offset + (x - vaddr))) := by
        rw [hl, List.getElem?_eq_getElem (by rw [length_slice]; exact hxl), getElem_slice]
      rw [if_pos hxl, List.getElem_append_left hxl]
      rw [List.getElem?_eq_getElem hxl] at hget
      exact Option.some.inj hget
    · rw [if_neg hxl, List.getElem_append_right (by omega), List.getElem_replicate]
  · rw [if_neg hx]
    by_cases hlow : x < vaddr
    · exact overlay_of_lt _ hlow
    · exact overlay_of_ge (by omega)

/-- After a read that got all it asked for. -/
theorem wp_fill {Q : Post machine (Uio × Option LoadError)} (hr : u.uioRw = .uioRead)
    (hoff : u.OffT) (h0 : u.uioResid = 0) (hlen : u.iovLen = memsize - filesize)
    (hmap : u.iovPos + u.iovLen ≤ u.iovMapped) (hsmall : memsize < 2 ^ 32)
    (hok : ∀ r, r.2 = none → r.1.iovOut = u.iovOut ++ List.replicate (memsize - filesize) 0 →
      Q.ok r w) : (loadSegment.fill memsize filesize u).wp Q w := by
  rw [loadSegment.fill, if_neg (not_not.mpr h0)]
  by_cases hfill : memsize - filesize > 0
  · rw [if_pos hfill, Prog.wp_bind]
    have hresid : u32 ((u.uioResid : Int) + (memsize - filesize : Nat)) = memsize - filesize := by
      rw [u32_eq (by omega) (by omega)]
      omega
    rw [hresid, uiomovezeros, if_pos hr]
    have hb : Uio.Backed { u with uioResid := memsize - filesize } w.st :=
      ⟨Nat.le_of_eq hlen.symm, by simp only [hlen]; omega, hmap, fun hw => by
        rw [show u.uioRw = .uioWrite from hw] at hr
        cases hr⟩
    have hz := (zeros_loop_iff (n := memsize - filesize)
      (u := { u with uioResid := memsize - filesize }) _ (Nat.le_refl _) hr hb hoff).mpr
        (.inl (Nat.le_refl _))
    refine hz.mono ?_ (fun _ _ hx => hx.elim) fun _ _ hx => hx.elim
    intro _ _ hy
    obtain ⟨rfl, rfl⟩ := hy
    dsimp only
    rw [Prog.wp_pure, Nat.min_self]
    refine hok _ rfl ?_
    simp only [Uio.after, if_pos hr]
  · rw [if_neg hfill, Prog.wp_pure]
    have hnil : memsize - filesize = 0 := by omega
    exact hok _ rfl (by rw [hnil, List.replicate_zero, List.append_nil])

/-! ## The read -/

theorem segmentUio_sound (hoff : offset < 2 ^ 31) (hm : memsize < 2 ^ 32)
    (hle : filesize ≤ memsize) : (segmentUio mapped offset memsize filesize).Sound [] where
  base _ := rfl
  room := hle
  small := Nat.lt_of_le_of_lt hle hm
  enough hw := nomatch hw
  low := Int.natCast_nonneg offset
  high := by
    simp only [segmentUio]
    omega

/-- A read of the executable on a volume where nothing goes wrong: it fails for lack of space, or
gets what the file has. -/
theorem wp_read_segment {Q : Post machine (Uio × Result)} (h : Ready L sv w)
    (hops : ((vol w).fs.heap sv).vnOps = .sfsFileops) (hf : Holds (vol w) sv f)
    (hrange : f.size ≤ rangeLimit) (hend : offset + filesize < 2 ^ 31) (hm : memsize < 2 ^ 32)
    (hle : filesize ≤ memsize) (hmap : memsize ≤ mapped)
    (hspace : ∀ u w', Q.ok (u, some .enospc) w')
    (hok : ∀ l w', l = slice f.get offset l.length → l.length = min filesize (f.size - offset) →
      Q.ok ((segmentUio mapped offset memsize filesize).advance l, none) w') :
    (vopRead sv (segmentUio mapped offset memsize filesize)).wp Q w := by
  simp only [rangeLimit, doubleLimit] at hrange
  have hlow : offset < 2 ^ 31 := by omega
  have hs : (segmentUio mapped offset memsize filesize).Sound [] := segmentUio_sound hlow hm hle
  have hread : (segmentUio mapped offset memsize filesize).uioRw = .uioRead := rfl
  have hnowrite : (segmentUio mapped offset memsize filesize).uioRw ≠ .uioWrite := by
    intro he
    cases he
  have hsize : (vol w).size sv = f.size := hf.size_eq (by omega)
  have hpos : (segmentUio mapped offset memsize filesize).pos = offset := rfl
  have hops' : (w.st.fs.heap sv).vnOps = .sfsFileops := hops
  rw [vopRead, Prog.wp_bind, wp_getVnode]
  dsimp only
  rw [hops']
  dsimp only
  rw [sfsRead, if_pos hread]
  by_cases heof : f.size ≤ offset
  · -- nothing is read at or behind the end
    have hcond : (segmentUio mapped offset memsize filesize).uioRw = .uioRead ∧
        (segmentUio mapped offset memsize filesize).uioOffset ≥ (vol w).size sv :=
      ⟨rfl, by rw [hsize]; simp only [segmentUio]; omega⟩
    have hsz : i32 (w.st.fs.heap sv).svI.sfiSize.toNat = (vol w).size sv := rfl
    rw [sfsIo, Prog.wp_bind, wp_getVnode]
    dsimp only
    rw [hsz, if_pos hcond, Prog.wp_pure]
    have := hok [] w rfl (by rw [List.length_nil]; omega)
    rwa [hs.advance_nil] at this
  · have hclip : ((segmentUio mapped offset memsize filesize).clip ((vol w).size sv)).uioResid =
        min filesize (f.size - offset) := by
      rw [hsize]
      exact hs.clip_resid rfl hend (by simp only [segmentUio]; omega)
    have hsame : ((segmentUio mapped offset memsize filesize).clip ((vol w).size sv)).pos = offset ∧
        ((segmentUio mapped offset memsize filesize).clip ((vol w).size sv)).iovPos = 0 ∧
        ((segmentUio mapped offset memsize filesize).clip
          ((vol w).size sv)).iovMapped = mapped := by
      unfold Uio.clip
      split <;> exact ⟨rfl, rfl, rfl⟩
    obtain ⟨hcpos, hciov, hcmap⟩ := hsame
    -- all of the blocks lie within the file
    have htouch {fb : Nat}
        (ht : ((segmentUio mapped offset memsize filesize).clip ((vol w).size sv)).Touches fb) :
        fb * 512 < f.size := by
      have := ht.2
      rw [hcpos, hclip] at this
      omega
    refine wp_sfsIo (π := ⟨False, True, True⟩) (L := L)
      ⟨h.core, h.vnode, h.writes, hs, iff_of_false hnowrite id, fun _ _ => trivial,
        fun _ _ _ _ _ => trivial, ?_, ?_, ?_, ?_⟩
    · intro _ hge
      rw [hsize] at hge
      simp only [segmentUio] at hge
      omega
    · intro l w' _ hx hl
      obtain ⟨w₁, hmv, -, -⟩ := hx
      refine hok l w' ?_ (hl.trans hclip)
      have hgot := hmv.got rfl
      rwa [hf.bytes, hpos] at hgot
    · intro l w' e _ he
      rcases he with ⟨-, hr⟩ | ⟨-, hm'⟩ | ⟨rfl, -⟩ | ⟨-, fb, ht, hfb⟩
      · exact absurd h.reads hr
      · rw [hciov, hcmap, hclip] at hm'
        omega
      · exact hspace _ _
      · have := htouch ht
        simp only [doubleLimit] at hfb
        omega
    · intro m w' hx
      obtain ⟨fb, ht, hfb⟩ := hx
      have := htouch ht
      simp only [bufferLimit, doubleLimit] at hfb
      omega

/-- The load comes back, exact or for lack of space. -/
theorem loadSegment_comes_back (h : Ready L sv w)
    (hops : ((vol w).fs.heap sv).vnOps = .sfsFileops) (hf : Holds (vol w) sv f)
    (hrange : f.size ≤ rangeLimit) (hend : offset + filesize < 2 ^ 31) (hm : memsize < 2 ^ 32)
    (hmap : memsize ≤ mapped) :
    ∃ r w', (loadSegment sv mapped offset memsize filesize).run machine w = (.ok r, w') ∧
      (r.2 ≠ some (.vop .enospc) → LoadedSegment mem f vaddr memsize offset filesize r) := by
  have hclamp : (if filesize > memsize then memsize else filesize) = min filesize memsize := by
    split <;> omega
  have hlow : offset + min filesize memsize < 2 ^ 31 := by omega
  refine Prog.ok_of_wp ?_
  rw [loadSegment, hclamp, Prog.wp_bind]
  refine wp_read_segment h hops hf hrange hlow hm (Nat.min_le_right _ _) hmap ?_ ?_
  · intro u w'
    dsimp only
    rw [Prog.wp_pure]
    exact fun hne => absurd rfl hne
  · intro l w' hl hlen
    have hs : (segmentUio mapped offset memsize (min filesize memsize)).Sound [] :=
      segmentUio_sound (by omega) hm (Nat.min_le_right _ _)
    have hfit : l.length ≤ min filesize memsize := by omega
    have hpos : offset + l.length < 2 ^ 31 := by omega
    have hresid : ((segmentUio mapped offset memsize (min filesize memsize)).advance l).uioResid =
        min filesize memsize - l.length := hs.resid_advance hfit
    dsimp only
    by_cases hall : min filesize memsize ≤ f.size - offset
    · have hl' : l.length = min filesize memsize := by
        clear hresid
        omega
      have hoff : ((segmentUio mapped offset memsize (min filesize memsize)).advance l).OffT := by
        rw [Uio.OffT, hs.offset_advance hpos]
        exact i32_eq (Int.natCast_nonneg _) (Int.ofNat_lt.mpr hpos)
      have hmap' : 0 + l.length + (memsize - l.length) ≤ mapped := by
        clear hresid
        omega
      refine wp_fill rfl hoff ?_ ?_ ?_ hm fun r hr hout _ => ?_
      · rw [hresid, hl', Nat.sub_self]
      · rw [← hl']
        rfl
      · exact hmap'
      · refine ⟨by rw [hr, if_pos hall], fun _ => ?_⟩
        rw [hout, ← hl']
        exact overlay_segment hl (Nat.le_trans hfit (Nat.min_le_right _ _))
    · have hne :
          ((segmentUio mapped offset memsize (min filesize memsize)).advance l).uioResid ≠ 0 := by
        rw [hresid]
        clear hresid
        omega
      rw [loadSegment.fill, if_pos hne, Prog.wp_pure]
      exact fun _ => ⟨by rw [if_neg hall], fun he => absurd he (Option.some_ne_none _)⟩

/-- Loading a segment is exact: on a volume without device errors, if no allocation during the load
lacks space, `load_segment` fills exactly the memory of the segment, or finds that the file is too
short. -/
theorem segment_exact {L : UInt32 → Prop} {w : World} {sv : Ptr} {f : SparseArray UInt8}
    (h : Ready L sv w) (hops : ((vol w).fs.heap sv).vnOps = .sfsFileops) (hf : Holds (vol w) sv f)
    (hrange : f.size ≤ rangeLimit) (mem : Nat → UInt8) (mapped vaddr memsize offset filesize : Nat)
    (hend : offset + filesize < 2 ^ 31) (hm : memsize < 2 ^ 32) (hmap : memsize ≤ mapped)
    (hspace : .noSpace ∉ (loadSegment sv mapped offset memsize filesize).marks machine w) :
    ∃ r w', (loadSegment sv mapped offset memsize filesize).run machine w = (.ok r, w') ∧
      LoadedSegment mem f vaddr memsize offset filesize r := by
  have hback : ∃ r w', (loadSegment sv mapped offset memsize filesize).run machine w = (.ok r, w') ∧
      (r.2 ≠ some (.vop .enospc) → LoadedSegment mem f vaddr memsize offset filesize r) :=
    loadSegment_comes_back h hops hf hrange hend hm hmap
  obtain ⟨r, w', hrun, hexact⟩ := hback
  have hfound := FindsSpace.loadSegment sv mapped offset memsize filesize w hspace
  rw [Prog.wp_iff, hrun] at hfound
  exact ⟨r, w', hrun, hexact hfound⟩

end Load

/-! ## A small executable -/

/-- The bytes 7 and 11 are written at 3 of the empty file. -/
def programCall : Call :=
  ⟨smallCall [7, 11] 2 3 .uioWrite, [7, 11],
    ⟨fun _ => rfl, by decide, by decide, by decide, by decide, by decide⟩, by decide, by decide⟩

def programVolume : World := ((fileCalls 0 [programCall]).run machine smallVolume).2

theorem programVolume_holds : Ready (fun i => i = 1 ∨ i = 3) 0 programVolume ∧
    Holds (vol programVolume) 0 (SparseArray.empty.write 3 [7, 11]) := by
  have hres : resultsOf ((fileCalls 0 [programCall]).run machine smallVolume).1 = [none] := by
    decide +kernel
  have h : (fileCalls 0 [programCall]).wp ⟨fun rs w' => resultsOf (.ok rs) = [none] →
      Ready (fun i => i = 1 ∨ i = 3) 0 w' ∧ Holds (vol w') 0 (SparseArray.empty.write 3 [7, 11]),
      fun _ _ => False, fun _ _ => False⟩ smallVolume := by
    refine wp_fileCalls [programCall] smallVolume_ready fun rs w' hready hrs hres => ?_
    rcases hrs with ⟨r, hr, he⟩ | hrs
    · have hmem : some Errno.enospc ∈ resultsOf (.ok rs) := List.mem_map.mpr ⟨r, hr, he⟩
      rw [hres] at hmem
      simp at hmem
    · exact ⟨hready, (hrs _ smallVolume_holds (by decide)).2⟩
  obtain ⟨rs, w', hrun, hw⟩ := Prog.ok_of_wp h
  rw [hrun] at hres
  rw [programVolume, hrun]
  exact hw hres

/-- The two bytes are loaded to 4096, with two zeros behind them. -/
theorem segment_exact_program : ∃ r w',
    (loadSegment 0 16 3 4 2).run machine programVolume = (.ok r, w') ∧ r.2 = none ∧
      ∀ x, overlay (fun _ => 5) 4096 r.1.iovOut x =
        if x = 4096 then 7 else if x = 4097 then 11 else if x = 4098 ∨ x = 4099 then 0 else 5 := by
  obtain ⟨hready, hholds⟩ := programVolume_holds
  obtain ⟨r, w', hrun, hload⟩ := segment_exact hready (by decide +kernel) hholds (by decide)
    (fun _ => 5) 16 4096 4 3 2 (by decide) (by decide) (by decide) (by decide +kernel)
  have hnone : r.2 = none := hload.result
  refine ⟨r, w', hrun, hnone, fun x => ?_⟩
  rw [hload.memory hnone, segment]
  by_cases hx : 4096 ≤ x ∧ x < 4096 + 4
  · have hcases : x = 4096 ∨ x = 4097 ∨ x = 4098 ∨ x = 4099 := by omega
    rcases hcases with rfl | rfl | rfl | rfl <;> decide
  · rw [if_neg hx, if_neg (by omega), if_neg (by omega), if_neg (by omega)]

end Os161.Sfs

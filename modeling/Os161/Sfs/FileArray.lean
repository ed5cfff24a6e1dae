import Os161.Sfs.FileIoSpec
import Os161.Sfs.VnodeOps

/-! # A file is a sparse array

What `sfs_io` does with a uio, seen from the outside: reads and writes of an
array of bytes that ends somewhere and is zero where nothing was written. -/
namespace Os161.Sfs
open Os161.Lib Kern Vol

/-- The file in `sv` holds the array. -/
structure Holds (v : Vol) (sv : Ptr) (f : SparseArray UInt8) : Prop where
  size : (v.fs.heap sv).svI.sfiSize.toNat = f.size
  bytes : v.byte (v.ino sv) = f.get

/-- The first position outside the direct, single and double indirect range. -/
@[reducible, simp] def rangeLimit : Nat := doubleLimit * 512

/-- A call of `sfs_read` or `sfs_write` that stays in that range; the memory
`src` behind the uio is there. -/
structure Call where
  uio : Uio
  src : List UInt8
  sound : uio.Sound src
  mapped : uio.iovPos + uio.uioResid ≤ uio.iovMapped
  range : uio.pos + uio.uioResid ≤ rangeLimit

namespace Call

variable (c : Call)

def run (sv : Ptr) : Kern (Uio × Result) :=
  if c.uio.uioRw = .uioRead then sfsRead sv c.uio else sfsWrite sv c.uio

/-- What the call writes. -/
def data : List UInt8 := (c.src.drop c.uio.iovPos).take c.uio.uioResid

/-- The array afterwards. -/
def after (f : SparseArray UInt8) : SparseArray UInt8 :=
  if c.uio.uioRw = .uioRead then f else f.write c.uio.pos c.data

/-- The bytes that go through the uio. -/
def moved (f : SparseArray UInt8) : List UInt8 :=
  if c.uio.uioRw = .uioRead then f.read c.uio.pos c.uio.uioResid else c.data

/-- What the caller gets back: the bytes read, and a uio advanced by what was
transferred. -/
structure Served (f : SparseArray UInt8) (r : Uio × Result) : Prop where
  result : r.2 = none
  out : r.1.iovOut = if c.uio.uioRw = .uioRead then c.uio.iovOut ++ c.moved f else c.uio.iovOut
  resid : (r.1.uioResid : Int) = c.uio.uioResid - (c.moved f).length
  offset : r.1.uioOffset = c.uio.uioOffset + (c.moved f).length

end Call

/-- One call after the other. -/
def fileCalls (sv : Ptr) : List Call → Kern (List (Uio × Result))
  | [] => pure []
  | c :: cs => do
    let r ← c.run sv
    return r :: (← fileCalls sv cs)

/-- The calls `cs` are served with the array `f` at first. -/
def AllServed : SparseArray UInt8 → List Call → List (Uio × Result) → Prop
  | _, [], rs => rs = []
  | _, _ :: _, [] => False
  | f, c :: cs, r :: rs => c.Served f r ∧ AllServed (c.after f) cs rs

/-- A volume on which nothing goes wrong, with a file loaded in `sv`. -/
structure Ready (L : UInt32 → Prop) (sv : Ptr) (w : World) : Prop where
  core : Core L (vol w)
  vnode : sv ∈ (vol w).fs.sfsVnodes
  reads : w.env.readFaults = []
  writes : w.env.writeFaults = []

section Steps

variable {L : UInt32 → Prop} {π : Perm} {w w' : World} {sv : Ptr} {src l : List UInt8} {u : Uio}
  {f : SparseArray UInt8}

theorem Vol.extend_touched {v : Vol} (h : Core L v) (hsv : sv ∈ v.fs.sfsVnodes) (o : Int) :
    v.extend sv o = v ∨ Touched L sv v (v.extend sv o) := by
  unfold Vol.extend
  split
  · exact .inr (Vol.touched h hsv (fun _ s => by cases s <;> rfl) fun _ => rfl)
  · exact .inl rfl

theorem Ready.transferred (h : Ready L sv w) (ht : Transferred π L sv src u w l w') :
    Ready L sv w' := by
  obtain ⟨w₁, hm, hc, hv⟩ := ht
  have hsv : sv ∈ (vol w₁).fs.sfsVnodes := by rw [hm.grown.here.vnodes]; exact h.vnode
  have hreads := hc.reads (hm.calm.reads h.reads)
  have hwrites := hc.writes (hm.calm.writes h.writes)
  split at hv
  · rcases Vol.extend_touched hm.grown.core hsv (u.pos + l.length : Nat) with he | he
    · rw [he] at hv
      exact ⟨hv ▸ hm.grown.core, hv ▸ hsv, hreads, hwrites⟩
    · refine ⟨hv ▸ he.core, ?_, hreads, hwrites⟩
      rw [hv, he.here.vnodes]
      exact hsv
  · exact ⟨hv ▸ hm.grown.core, hv ▸ hsv, hreads, hwrites⟩

theorem Holds.size_eq {v : Vol} (h : Holds v sv f) (hf : f.size < 2 ^ 31) :
    v.size sv = f.size := by
  rw [Vol.size, h.size, i32_eq (by omega) (by omega)]

/-- A read changes nothing. -/
theorem Holds.read (h : Holds (vol w) sv f) (hr : u.uioRw = .uioRead)
    (ht : Transferred π L sv src u w l w') : Holds (vol w') sv f := by
  obtain ⟨w₁, hm, -, hv⟩ := ht
  rw [if_neg (by rw [hr]; decide)] at hv
  rw [hv]
  constructor
  · rw [hm.grown.attrs.size]
    exact h.size
  · funext x
    rw [hm.grown.here.ino_eq, Vol.byte, hm.same hr, ← h.bytes, Vol.byte]

/-- A write overlays the array. -/
theorem Holds.write (h : Holds (vol w) sv f) (hsv : sv ∈ (vol w).fs.sfsVnodes)
    (hf : f.size < 2 ^ 31) (hw : u.uioRw = .uioWrite) (ht : Transferred π L sv src u w l w') :
    Holds (vol w') sv (f.write u.pos l) := by
  obtain ⟨w₁, hm, -, hv⟩ := ht
  rw [if_pos hw] at hv
  have hhigh := hm.high
  have hsv₁ : sv ∈ (vol w₁).fs.sfsVnodes := by rw [hm.grown.here.vnodes]; exact hsv
  have h₁ : ((vol w₁).fs.heap sv).svI.sfiSize.toNat = f.size := by
    rw [hm.grown.attrs.size]
    exact h.size
  have hsize : (vol w₁).size sv = f.size := by
    rw [Vol.size, h₁, i32_eq (by omega) (by omega)]
  have hbytes : (vol w₁).byte ((vol w₁).ino sv) = overlay f.get u.pos l := by
    rw [hm.grown.here.ino_eq, hm.wrote hw, h.bytes]
  rw [hv]
  constructor
  · rw [Vol.extend, hsize, SparseArray.write]
    split
    · simp only [Vol.touch, heap_modifyVnode, if_true, UInt32.toNat_ofNat']
      rw [u32_natCast (by omega)]
      omega
    · rw [h₁]
      simp only
      omega
  · rcases Vol.extend_touched hm.grown.core hsv₁ (u.pos + l.length : Nat) with he | he
    · rw [he]
      exact hbytes
    · funext x
      rw [he.here.ino_eq, Vol.byte, he.same _ (hm.grown.core.live sv hsv₁), ← Vol.byte, hbytes]
      rfl

/-- Reads end at the end of the file. -/
theorem Uio.Sound.clip_resid (hs : u.Sound src) (hr : u.uioRw = .uioRead)
    (hend : u.pos + u.uioResid < 2 ^ 31) {n : Nat} (hlt : u.uioOffset < (n : Int)) :
    (u.clip n).uioResid = min u.uioResid (n - u.pos) := by
  have hoff := hs.offset_eq
  have hi : i32 (u.uioOffset + u.uioResid) = u.uioOffset + u.uioResid := by
    rw [i32_eq (by omega) (by omega)]
  rw [Uio.clip, hi]
  split
  · next hc =>
    rw [u32_eq (by omega) (by omega)]
    simp only
    omega
  · next hc =>
    have : ¬ u.uioOffset + u.uioResid > (n : Int) := fun hg => hc ⟨hr, hg⟩
    omega

theorem Call.after_size_lt (c : Call) (hf : f.size < 2 ^ 31) : (c.after f).size < 2 ^ 31 := by
  have hrange := c.range
  unfold Call.after
  split
  · exact hf
  · have hlen : c.data.length ≤ c.uio.uioResid := List.length_take_le _ _
    simp only [SparseArray.write, rangeLimit, doubleLimit] at hrange ⊢
    omega

/-- A uio advanced by what the call moves is what the caller should get back. -/
theorem Call.served_advance {c : Call} (hfit : (c.moved f).length ≤ c.uio.uioResid) :
    c.Served f (c.uio.advance (c.moved f), none) := by
  have hrange := c.range
  simp only [rangeLimit, doubleLimit] at hrange
  constructor
  · rfl
  · rfl
  · rw [c.sound.resid_advance hfit]
    omega
  · rw [c.sound.offset_advance (by omega), c.sound.offset_eq]
    omega

/-- What a call that ran to its end has transferred. -/
theorem Call.moved_eq {c : Call} (h : Holds (vol w) sv f) (hf : f.size < 2 ^ 31)
    (hlt : c.uio.uioRw = .uioRead → c.uio.uioOffset < (vol w).size sv)
    (ht : Transferred π L sv c.src c.uio w l w')
    (hl : l.length = (c.uio.clip ((vol w).size sv)).uioResid) : l = c.moved f := by
  have hrange := c.range
  simp only [rangeLimit, doubleLimit] at hrange
  obtain ⟨w₁, hm, -, -⟩ := ht
  rw [h.size_eq hf] at hlt hl
  rw [Call.moved]
  split
  · next hr =>
    rw [c.sound.clip_resid hr (by omega) (hlt hr)] at hl
    rw [hm.got hr, hl, h.bytes]
    rfl
  · next hr =>
    have hw := UioRw.not_read.mp hr
    rw [Uio.clip_write hw] at hl
    rw [hm.put hw, hl]
    rfl

theorem Transferred.length_le (ht : Transferred π L sv src u w l w') : l.length ≤ u.uioResid := by
  obtain ⟨w₁, hm, -, -⟩ := ht
  exact hm.fits

/-- A call that stays in range, with no faults, can fail for lack of space only. -/
theorem Call.fails {c : Call} {e : Errno} (h : Ready L sv w) {n : Int}
    (he : IoFails w sv (c.uio.clip n) e) : e = .enospc := by
  have hmapped := c.mapped
  have hrange := c.range
  simp only [rangeLimit, doubleLimit] at hrange
  have hresid : (c.uio.clip n).uioResid ≤ c.uio.uioResid := by
    unfold Uio.clip
    split
    · exact Nat.sub_le _ _
    · exact Nat.le_refl _
  have hsame : (c.uio.clip n).iovPos = c.uio.iovPos ∧
      (c.uio.clip n).iovMapped = c.uio.iovMapped ∧ (c.uio.clip n).pos = c.uio.pos := by
    unfold Uio.clip
    split <;> exact ⟨rfl, rfl, rfl⟩
  obtain ⟨hpos, hmap, hoff⟩ := hsame
  rcases he with ⟨-, hr⟩ | ⟨-, hm⟩ | ⟨he, -⟩ | ⟨-, fb, ht, hfb⟩
  · exact absurd h.reads hr
  · rw [hpos, hmap] at hm
    omega
  · exact he
  · have := ht.2
    rw [hoff] at this
    simp only [doubleLimit] at hfb
    omega

/-- One call: it fails for lack of space, or it is served. -/
theorem wp_call {Q : Post machine (Uio × Result)} (h : Ready L sv w) (c : Call)
    (hok : ∀ r w', Ready L sv w' → (r.2 = some .enospc ∨ ∀ f, Holds (vol w) sv f →
      f.size < 2 ^ 31 → c.Served f r ∧ Holds (vol w') sv (c.after f)) → Q.ok r w') :
    (c.run sv).wp Q w := by
  have hrange := c.range
  simp only [rangeLimit, doubleLimit] at hrange
  have hrun : c.run sv = sfsIo sv c.uio := by
    unfold Call.run
    split
    · next hr => rw [sfsRead, if_pos hr]
    · next hr => rw [sfsWrite, if_pos (UioRw.not_read.mp hr)]
  rw [hrun]
  refine wp_sfsIo (π := ⟨c.uio.uioRw = .uioWrite, True, True⟩) (L := L)
    ⟨h.core, h.vnode, h.writes, c.sound, Iff.rfl, fun _ _ => trivial, fun _ _ _ _ _ => trivial,
      ?_, ?_, ?_, ?_⟩
  · intro hr heof
    refine hok _ w h (.inr fun f hf hlt => ?_)
    rw [hf.size_eq hlt, c.sound.offset_eq] at heof
    have hnil : c.moved f = [] := by
      rw [Call.moved, if_pos hr, SparseArray.read_of_size_le _ (by omega)]
    rw [Call.after, if_pos hr]
    refine ⟨?_, hf⟩
    have := Call.served_advance (c := c) (f := f) (by rw [hnil]; exact Nat.zero_le _)
    rwa [hnil, c.sound.advance_nil] at this
  · intro l w' hlt ht hl
    refine hok _ w' (h.transferred ht) (.inr fun f hf hsize => ?_)
    have hmoved := Call.moved_eq hf hsize hlt ht hl
    have hfit := ht.length_le
    subst hmoved
    refine ⟨Call.served_advance hfit, ?_⟩
    rw [Call.after]
    split
    · next hr => exact hf.read hr ht
    · next hr =>
      have hw := hf.write h.vnode hsize (UioRw.not_read.mp hr) ht
      rwa [Call.moved, if_neg hr] at hw
  · intro l w' e ht he
    exact hok _ w' (h.transferred ht) (.inl (congrArg some (Call.fails h he)))
  · intro m w' hx
    obtain ⟨fb, ht, hfb⟩ := hx
    have hclip : (c.uio.clip ((vol w).size sv)).pos + (c.uio.clip ((vol w).size sv)).uioResid ≤
        c.uio.pos + c.uio.uioResid := by
      unfold Uio.clip
      split
      · exact Nat.add_le_add_left (Nat.sub_le _ _) _
      · exact Nat.le_refl _
    have := ht.2
    simp only [bufferLimit, doubleLimit] at hfb
    omega

theorem wp_fileCalls (cs : List Call) {Q : Post machine (List (Uio × Result))}
    (h : Ready L sv w) (hok : ∀ rs w', Ready L sv w' →
      ((∃ r ∈ rs, r.2 = some .enospc) ∨ ∀ f, Holds (vol w) sv f → f.size < 2 ^ 31 →
        AllServed f cs rs ∧ Holds (vol w') sv (cs.foldl (fun f c => c.after f) f)) →
      Q.ok rs w') : (fileCalls sv cs).wp Q w := by
  induction cs generalizing w Q with
  | nil =>
    rw [fileCalls, Prog.wp_pure]
    exact hok [] w h (.inr fun f hf _ => ⟨rfl, hf⟩)
  | cons c cs ih =>
    simp only [fileCalls, Prog.wp_bind]
    refine wp_call h c fun r w₁ h₁ hr => ih h₁ fun rs w' h' hrs => ?_
    dsimp only
    rw [Prog.wp_pure]
    refine hok (r :: rs) w' h' ?_
    rcases hr with hr | hr
    · exact .inl ⟨r, List.mem_cons_self, hr⟩
    · rcases hrs with ⟨x, hx, he⟩ | hrs
      · exact .inl ⟨x, List.mem_cons_of_mem _ hx, he⟩
      · refine .inr fun f hf hsize => ?_
        obtain ⟨hserved, hf₁⟩ := hr f hf hsize
        obtain ⟨hall, hf'⟩ := hrs _ hf₁ (c.after_size_lt hsize)
        exact ⟨⟨hserved, hall⟩, hf'⟩

end Steps

/-! ## A small volume -/

/-- Eight blocks; besides the root there is one empty file, in inode 3. -/
def smallVolume : World where
  st :=
    { fs :=
        { sfsSuper := ⟨sfsMagic, 8, fun _ => 0, fun _ => 0⟩
          sfsSuperdirty := false
          dBlocks := 8
          sfsVnodes := [0]
          sfsFreemap := ⟨4096, fun j => if j = 0 then 0x0f else 0xff⟩
          sfsFreemapdirty := false
          heap := fun _ =>
            ⟨1, 1, .sfsFileops, { SfsInode.blank with sfiType := sfsTypeFile }, 3, false⟩
          brk := 1 }
      bufs := ⟨fun _ => 0, Sector.zero, fun _ => 0⟩ }
  env :=
    { disk := fun b =>
        if b = 1 then { SfsInode.blank with sfiType := sfsTypeDir }.toSector
        else { SfsInode.blank with sfiType := sfsTypeFile }.toSector
      readFaults := []
      writeFaults := []
      memFaults := [] }

theorem smallVolume_inode {i : UInt32} (hi : i = 1 ∨ i = 3) : (vol smallVolume).inode i =
    { SfsInode.blank with sfiType := if i = 1 then sfsTypeDir else sfsTypeFile } := by
  rcases hi with rfl | rfl
  · exact SfsInode.ofSector_toSector _
  · rfl

theorem smallVolume_ref {i : UInt32} (hi : i = 1 ∨ i = 3) (s : Slot) (l : Path) :
    (vol smallVolume).ref i s l = 0 := by
  by_contra h
  have h := ref_ne_zero_of_append (l := []) h
  rw [ref_nil, smallVolume_inode hi] at h
  cases s <;> exact h rfl

theorem smallVolume_blk {i : UInt32} (hi : i = 1 ∨ i = 3) {r : Node}
    (h : (vol smallVolume).blk i r ≠ 0) : r = .self := by
  cases r with
  | self => rfl
  | node s l => exact absurd (smallVolume_ref hi s l) h

theorem smallVolume_meta {b : UInt32} (h : (vol smallVolume).Meta b) : b = 0 ∨ b = 2 := by
  have hn : sfsBitblocks (vol smallVolume).nblocks = 1 := rfl
  rcases h with h | ⟨h1, h2⟩
  · exact .inl h
  · rw [hn] at h2
    exact .inr (UInt32.toNat_inj.mp (show b.toNat = 2 by omega))

theorem smallVolume_isset {j : Nat} (h : 8 ≤ j) :
    (vol smallVolume).fs.sfsFreemap.isset j = true := by
  have hj : j / 8 ≠ 0 := by omega
  have hword : (vol smallVolume).fs.sfsFreemap.v (j / 8) = wordAllbits := if_neg hj
  rw [Bitmap.isset, hword]
  exact (eq_wordAllbits_iff _).mp rfl _ (Nat.mod_lt _ (by decide))

theorem smallVolume_ready : Ready (fun i => i = 1 ∨ i = 3) 0 smallVolume where
  vnode := List.mem_singleton.mpr rfl
  reads := rfl
  writes := rfl
  core :=
    { nbits := rfl
      fits := by decide
      device := Nat.le_refl _
      offsets := by decide
      tail := fun j hj _ => smallVolume_isset hj
      metaSet := fun b hb => by
        rcases smallVolume_meta hb with rfl | rfl <;> rfl
      inj := fun i hi i' hi' r _ r' _ he h0 => by
        have hr := smallVolume_blk hi h0
        have hr' := smallVolume_blk hi' (he ▸ h0)
        subst hr hr'
        exact ⟨he, rfl⟩
      marked := fun i hi r _ h0 => by
        rw [smallVolume_blk hi h0]
        rcases hi with rfl | rfl <;> rfl
      range := fun i hi r _ h0 => by
        rw [smallVolume_blk hi h0]
        refine ⟨?_, fun hm => ?_⟩
        · rcases hi with rfl | rfl <;> decide
        · rcases smallVolume_meta hm with hm | hm <;> rcases hi with rfl | rfl <;> cases hm
      nodup := List.nodup_singleton _
      live := fun p _ => .inr rfl
      below := fun p hp => by
        rw [List.mem_singleton.mp hp]
        decide
      held := fun _ _ => Nat.one_pos
      opens := fun _ _ => Nat.le_refl _
      root := .inl rfl
      type := fun i hi => by
        rw [smallVolume_inode hi]
        rcases hi with rfl | rfl <;> rfl
      ops := fun _ _ => rfl
      nonzero := fun i hi => by rcases hi with rfl | rfl <;> decide
      clean := fun p hp _ => by
        rw [List.mem_singleton.mp hp]
        exact (SfsInode.ofSector_toSector _).symm ▸ SfsInode.Agrees.refl _ }

theorem smallVolume_holds : Holds (vol smallVolume) 0 SparseArray.empty where
  size := rfl
  bytes := by
    funext x
    have h : (vol smallVolume).fileBlock 3 (x / 512) = 0 := by
      unfold Vol.fileBlock
      split
      · exact smallVolume_ref (.inr rfl) _ _
      · rfl
    change (vol smallVolume).sector 3 (x / 512) _ = 0
    unfold Vol.sector
    rw [if_pos h]
    rfl

/-- Reads and writes of a file in any order are reads and writes of the array it
holds, unless one of them runs out of space. -/
theorem io_refines_array {L : UInt32 → Prop} {sv : Ptr} {w : World} {f : SparseArray UInt8}
    (h : Ready L sv w) (hf : Holds (vol w) sv f) (hsize : f.size < 2 ^ 31) (cs : List Call) :
    ∃ rs w', (fileCalls sv cs).run machine w = (.ok rs, w') ∧
      ((∀ r ∈ rs, r.2 ≠ some .enospc) →
        AllServed f cs rs ∧ Holds (vol w') sv (cs.foldl (fun f c => c.after f) f)) := by
  refine Prog.ok_of_wp (wp_fileCalls cs h fun rs w' _ hrs hspace => ?_)
  rcases hrs with ⟨r, hr, he⟩ | hrs
  · exact absurd he (hspace r hr)
  · exact hrs f hf hsize

/-- A call with a buffer of its own. -/
def smallCall (src : List UInt8) (n o : Nat) (rw : UioRw) : Uio where
  iovBase := fun _ => src
  iovPos := 0
  iovLen := n
  iovOut := []
  iovMapped := n
  uioOffset := o
  uioResid := n
  uioRw := rw

/-- Two bytes are written at 3, and ten read from the front. -/
def smallCalls : List Call :=
  [⟨smallCall [7, 9] 2 3 .uioWrite, [7, 9],
      ⟨fun _ => rfl, by decide, by decide, by decide, by decide, by decide⟩, by decide, by decide⟩,
    ⟨smallCall [] 10 0 .uioRead, [],
      ⟨fun _ => rfl, by decide, by decide, by decide, by decide, by decide⟩, by decide, by decide⟩]

/-- The result codes of a run. -/
def resultsOf : Outcome kernSig (List (Uio × Result)) → List Result
  | .ok rs => rs.map (·.2)
  | _ => []

/-- They are served: the array ends at 5. -/
theorem io_refines_array_small : ∃ rs w',
    (fileCalls 0 smallCalls).run machine smallVolume = (.ok rs, w') ∧
      AllServed SparseArray.empty smallCalls rs ∧
      Holds (vol w') 0 (smallCalls.foldl (fun f c => c.after f) SparseArray.empty) := by
  obtain ⟨rs, w', hrun, h⟩ :=
    io_refines_array smallVolume_ready smallVolume_holds (by decide) smallCalls
  have hres : resultsOf ((fileCalls 0 smallCalls).run machine smallVolume).1 = [none, none] := by
    decide +kernel
  rw [hrun] at hres
  refine ⟨rs, w', hrun, h fun r hr he => ?_⟩
  have hmem : some Errno.enospc ∈ resultsOf (.ok rs) := List.mem_map.mpr ⟨r, hr, he⟩
  rw [hres] at hmem
  simp at hmem

end Os161.Sfs

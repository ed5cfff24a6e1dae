import Os161.Sfs.FileArray

/-! # Where `sfs_bmap` looks

The tree a file block is in and the subscripts `sfs_bmap` uses in it, for every file block
that it accepts. In the triple indirect tree the middle subscript is not reduced, and the
base that is subtracted is too small. -/
namespace Os161.Sfs
open Os161.Lib Kern

/-- The file blocks that are not refused with `EINVAL`. -/
def Accepted (fb : Nat) : Prop := fb < 15 + 128 + 128 ^ 2 + 128 ^ 3

/-- The subscripts for the walk in the tree of a level, with the offset into it. -/
def subscripts (idblevel fileblock : Nat) : List Nat :=
  if idblevel = 1 then [fileblock % sfsDbperidb]
  else if idblevel = 2 then [fileblock / sfsDbperidb, fileblock % sfsDbperidb]
  else [fileblock / (sfsDbperidb * sfsDbperidb), fileblock / sfsDbperidb, fileblock % sfsDbperidb]

/-- The pointer of the inode that `sfs_bmap` starts from, and the subscripts. -/
def visits (fb : Nat) : Slot × List Nat :=
  if h : fb < 15 then (.direct ⟨fb, h⟩, [])
  else if fb - 15 ≥ 128 * 128 + 128 then
    (.triple, subscripts 3 (fb - 15 - (128 * 128 - 128)))
  else if fb - 15 ≥ 128 then (.double, subscripts 2 (fb - 15 - 128))
  else (.indirect, subscripts 1 (fb - 15))

/-- From one block of a tree to the next, along subscripts. -/
def walkAlong (sv : Ptr) (doalloc : Bool) (idblevel : Nat) : UInt32 → List Nat → Kern UInt32
  | idblock, [] => pure idblock
  | idblock, [blockno] => getBlock sv doalloc idblock blockno
  | idblock, blockno :: path => do
    let block ← getBlock sv doalloc idblock blockno
    let idblock ← descend sv idblevel block
    walkAlong sv doalloc idblevel idblock path

theorem bmapWalk_eq (sv : Ptr) (doalloc : Bool) (idblevel : Nat) (idblock : UInt32) (f : Nat) :
    bmapWalk sv doalloc idblevel idblock f =
      walkAlong sv doalloc idblevel idblock (subscripts idblevel f) := by
  unfold bmapWalk subscripts
  split
  · rfl
  · split <;> rfl

/-! ## Stops other than a subscript -/

def NotIndex (m : Stop) : Prop := ∀ n, m ≠ .blockbufIndex n

theorem stops_ofExcept {α : Type} {x : Except Stop α} (h : ∀ m, x = .error m → NotIndex m) :
    (ofExcept x).StopsOnly NotIndex := by
  cases x with
  | ok a => exact .pure a
  | error m => exact .stop (h m rfl)

theorem stops_check (r : Result) : (check r).StopsOnly NotIndex := by
  cases r with
  | none => exact .pure ()
  | some e => exact Prog.StopsOnly.fail (S := kernSig) e

theorem stops_getFs : getFs.StopsOnly NotIndex := .bind .getS fun _ => .pure _

theorem stops_getVnode (sv : Ptr) : (getVnode sv).StopsOnly NotIndex :=
  .bind stops_getFs fun _ => .pure _

theorem stops_modifyFs (f : SfsFs → SfsFs) : (modifyFs f).StopsOnly NotIndex := .modifyS _

theorem stops_modifyInode (sv : Ptr) (f : SfsInode → SfsInode) :
    (modifyInode sv f).StopsOnly NotIndex := stops_modifyFs _

theorem stops_setDirty (sv : Ptr) : (setDirty sv).StopsOnly NotIndex := .modifyS _

theorem stops_modifyBufs (f : Bufs → Bufs) : (modifyBufs f).StopsOnly NotIndex := .modifyS _

theorem uiomove_loop_error (k : Kernel) (fuel : Nat) (moved ptr : List UInt8) (n : Nat)
    (uio : Uio) (m : Stop) (h : uiomove.loop k fuel moved ptr n uio = .error m) :
    m = .uiomoveSize := by
  induction fuel generalizing moved ptr n uio with
  | zero => cases h
  | succ fuel ih =>
    rw [uiomove.loop] at h
    split at h
    · dsimp only at h
      split at h
      · cases h
        rfl
      · split at h
        · cases h
        · exact ih _ _ _ _ h
    · cases h

theorem stops_uiomove (ptr : List UInt8) (n : Nat) (uio : Uio) :
    (uiomove ptr n uio).StopsOnly NotIndex := by
  refine .bind .getS fun k => stops_ofExcept fun m hm => ?_
  rw [uiomove_loop_error _ _ _ _ _ _ _ hm]
  exact nofun

theorem stops_lhdIo_loop (sector n i : Nat) (uio : Uio) :
    (lhdIo.loop sector n i uio).StopsOnly NotIndex := by
  induction n generalizing i uio with
  | zero => exact .pure _
  | succ n ih =>
    rw [lhdIo.loop]
    refine .bind (.request _) fun _ => ?_
    cases uio.uioRw with
    | uioRead =>
      refine .bind (.request _) fun resp => ?_
      cases resp.result with
      | some e => exact .pure _
      | none =>
        refine .bind (stops_uiomove ..) fun r => ?_
        obtain ⟨_, uio', result⟩ := r
        cases result with
        | some e => exact .pure _
        | none => exact ih ..
    | uioWrite =>
      refine .bind (stops_uiomove ..) fun r => ?_
      obtain ⟨buf, uio', result⟩ := r
      cases result with
      | some e => exact .pure _
      | none =>
        refine .bind (.request _) fun resp => ?_
        cases resp.result with
        | some e => exact .pure _
        | none => exact ih ..

theorem stops_lhdIo (uio : Uio) : (lhdIo uio).StopsOnly NotIndex := by
  refine .bind stops_getFs fun fs => ?_
  dsimp only
  split
  · exact .pure _
  · split
    · exact .pure _
    · exact stops_lhdIo_loop ..

theorem notIndex_dIoEinval : NotIndex .dIoEinval := by
  intro n h
  cases h

theorem stops_retry (n : Nat) (uio : Uio) : (sfsRwblock.retry n uio).StopsOnly NotIndex := by
  induction n generalizing uio with
  | zero =>
    rw [sfsRwblock.retry]
    refine .bind (stops_lhdIo uio) fun r => ?_
    dsimp only
    split
    · exact .stop notIndex_dIoEinval
    · split
      · exact .pure _
      · exact .pure _
  | succ n ih =>
    rw [sfsRwblock.retry]
    refine .bind (stops_lhdIo uio) fun r => ?_
    dsimp only
    split
    · exact .stop notIndex_dIoEinval
    · split
      · exact ih _
      · exact .pure _

theorem stops_sfsRblock (block : UInt32) : (sfsRblock block).StopsOnly NotIndex := by
  refine .bind (stops_retry ..) fun _ => ?_
  exact .bind (stops_check _) fun _ => .pure _

theorem stops_sfsWblock (data : Kernel → Sector) (block : UInt32) :
    (sfsWblock data block).StopsOnly NotIndex :=
  .bind (stops_retry ..) fun _ => stops_check _

theorem bitmapAlloc_error {b : Bitmap} {m : Stop} (h : bitmapAlloc b = .error m) :
    NotIndex m := by
  have hoffsets (ix n offset : Nat) (h : bitmapAlloc.offsets b ix n offset = .error m) :
      NotIndex m := by
    induction n generalizing offset with
    | zero =>
      cases h
      intro n hn
      cases hn
    | succ n ih =>
      rw [bitmapAlloc.offsets] at h
      split at h
      · dsimp only at h
        split at h
        · cases h
        · cases h
          intro n hn
          cases hn
      · exact ih _ h
  have hwords (n ix : Nat) (h : bitmapAlloc.words b n ix = .error m) : NotIndex m := by
    induction n generalizing ix with
    | zero => cases h
    | succ n ih =>
      rw [bitmapAlloc.words] at h
      split at h
      · exact hoffsets _ _ _ h
      · exact ih _ h
  exact hwords _ _ h

theorem stops_sfsBalloc : sfsBalloc.StopsOnly NotIndex := by
  refine .bind stops_getFs fun fs => ?_
  refine .bind (stops_ofExcept fun m => bitmapAlloc_error) fun x => ?_
  cases x with
  | none => exact .bind (.mark _) fun _ => .fail _
  | some x =>
    refine .bind (stops_modifyFs _) fun _ => ?_
    split
    · exact .stop nofun
    · exact .bind (stops_sfsWblock ..) fun _ => .pure _

theorem stops_loadbuffer (sv : Ptr) (idblevel : Nat) (idblock block : UInt32) (level : Nat) :
    (loadbuffer sv idblevel idblock block level).StopsOnly NotIndex := by
  unfold loadbuffer
  split
  · refine .bind stops_sfsBalloc fun b => .bind (stops_modifyInode ..) fun _ => ?_
    dsimp only
    split
    · exact .bind (stops_modifyInode ..) fun _ => .bind (stops_setDirty sv) fun _ =>
        .bind (stops_modifyBufs _) fun _ => .pure _
    · exact .bind (stops_setDirty sv) fun _ => .bind (stops_modifyBufs _) fun _ => .pure _
  · exact .bind (stops_sfsRblock _) fun _ => .bind (stops_modifyBufs _) fun _ => .pure _

theorem stops_descend (sv : Ptr) (idblevel : Nat) (block : UInt32) :
    (descend sv idblevel block).StopsOnly NotIndex :=
  .bind (stops_modifyBufs _) fun _ => stops_loadbuffer ..

theorem stops_bmapReturn (sv : Ptr) (fileblock : Nat) (block : UInt32) :
    (bmapReturn sv fileblock block).StopsOnly NotIndex := by
  refine .bind (stops_getVnode sv) fun n => ?_
  split
  · refine .bind (.bind stops_getFs fun fs => ?_) fun b => ?_
    · split
      · exact .stop nofun
      · exact .pure _
    · split
      · exact .pure _
      · exact .stop nofun
  · exact .pure _

/-- A subscript within the buffer. -/
theorem stops_getBlock (sv : Ptr) (doalloc : Bool) (idblock : UInt32) {blockno : Nat}
    (h : blockno < 128) : (getBlock sv doalloc idblock blockno).StopsOnly NotIndex := by
  unfold getBlock
  rw [dif_pos h]
  refine .bind .getS fun k => ?_
  dsimp only
  split
  · refine .bind (.mark _) fun _ => .bind stops_sfsBalloc fun b => ?_
    exact .bind (stops_modifyInode ..) fun _ => .bind (stops_modifyBufs _) fun _ =>
      .bind (.mark _) fun _ => .bind (stops_sfsWblock ..) fun _ => .bind (.mark _) fun _ =>
        .pure _
  · exact .pure _

theorem stops_walkAlong (sv : Ptr) (doalloc : Bool) (idblevel : Nat) (idblock : UInt32)
    (path : List Nat) (h : ∀ i ∈ path, i < 128) :
    (walkAlong sv doalloc idblevel idblock path).StopsOnly NotIndex := by
  induction path generalizing idblock with
  | nil => exact .pure _
  | cons i path ih =>
    have hi := h i List.mem_cons_self
    cases path with
    | nil => exact stops_getBlock _ _ _ hi
    | cons j path =>
      refine .bind (stops_getBlock _ _ _ hi) fun block => .bind (stops_descend ..) fun idblock => ?_
      exact ih idblock fun k hk => h k (List.mem_cons_of_mem i hk)

theorem visits_lt {fb : Nat} (h : fb < bufferLimit) : ∀ i ∈ (visits fb).2, i < 128 := by
  simp only [bufferLimit, doubleLimit] at h
  intro i hi
  unfold visits at hi
  split at hi
  · cases hi
  · split at hi
    · simp only [subscripts, sfsDbperidb, List.mem_cons, List.not_mem_nil, or_false,
        OfNat.ofNat_ne_one, Nat.reduceEqDiff, if_false] at hi
      omega
    · split at hi
      · simp only [subscripts, sfsDbperidb, List.mem_cons, List.not_mem_nil, or_false,
          OfNat.ofNat_ne_one, if_true, if_false] at hi
        omega
      · simp only [subscripts, sfsDbperidb, List.mem_singleton, if_true] at hi
        omega

/-! ## The mapping in one form -/

/-- Beyond the direct blocks `sfs_bmap` is a walk along what it visits. -/
theorem sfsBmap_eq {fb : Nat} (sv : Ptr) (doalloc : Bool) (hfb : 15 ≤ fb) (h : Accepted fb) :
    ∃ fileblock, sfsBmap sv fb doalloc = (do
      let idblock := (← getVnode sv).svI.root (visits fb).1
      if idblock = 0 ∧ ¬doalloc then return 0
      else do
        let idblock ← loadbuffer sv (visits fb).1.depth idblock idblock 0
        let block ← walkAlong sv doalloc (visits fb).1.depth idblock (visits fb).2
        bmapReturn sv fileblock block) := by
  have hn : ¬ fb < 15 := Nat.not_lt.mpr hfb
  have hbig : ¬ (fb - 15) / (128 + 128 * 128 + 128 * 128 * 128) > 0 := by
    simp only [Accepted] at h
    omega
  simp only [sfsBmap, sfsNdirect, sfsDbperidb, dif_neg hn, if_neg hbig, bmapWalk_eq, visits]
  by_cases h3 : fb - 15 ≥ 128 * 128 + 128
  · refine ⟨fb - 15 - (128 * 128 - 128), ?_⟩
    simp only [if_pos h3, Slot.depth, SfsInode.root, OfNat.ofNat_ne_one, Nat.reduceEqDiff, if_false]
  · by_cases h2 : fb - 15 ≥ 128
    · refine ⟨fb - 15 - 128, ?_⟩
      simp only [if_neg h3, if_pos h2, Slot.depth, SfsInode.root, OfNat.ofNat_ne_one, if_true,
        if_false]
    · refine ⟨fb - 15, ?_⟩
      simp only [if_neg h3, if_neg h2, Slot.depth, SfsInode.root, if_true]

theorem stops_sfsBmap (sv : Ptr) (doalloc : Bool) {fb : Nat} (h : fb < bufferLimit) :
    (sfsBmap sv fb doalloc).StopsOnly NotIndex := by
  by_cases hfb : 15 ≤ fb
  · have ha : Accepted fb := by
      simp only [bufferLimit, doubleLimit] at h
      simp only [Accepted]
      omega
    obtain ⟨f, heq⟩ := sfsBmap_eq sv doalloc hfb ha
    rw [heq]
    refine .bind (stops_getVnode sv) fun n => ?_
    dsimp only
    split
    · exact .pure _
    · refine .bind (stops_loadbuffer ..) fun b => .bind ?_ fun _ => stops_bmapReturn ..
      exact stops_walkAlong _ _ _ _ _ (visits_lt h)
  · have hlt : fb < 15 := Nat.not_le.mp hfb
    simp only [sfsBmap, sfsNdirect, dif_pos hlt]
    refine .bind (stops_getVnode sv) fun n => ?_
    split
    · exact .bind stops_sfsBalloc fun b => .bind (stops_modifyInode ..) fun _ =>
        .bind (stops_setDirty sv) fun _ => stops_bmapReturn ..
    · exact stops_bmapReturn ..

/-! ## A subscript outside the buffer -/

/-- Every word on the disk is 5. -/
structure Fives (w : World) : Prop where
  reads : w.env.readFaults = []
  size : w.st.fs.dBlocks = 8
  disk : ∀ b, w.env.disk b = Sector.ofWords fun _ => 5

def LeavesBuffer : Post machine UInt32 :=
  ⟨fun _ _ => False, fun _ _ => False, fun m _ => ∃ n, m = .blockbufIndex n⟩

section Fives

variable {w : World} {sv : Ptr} {doalloc : Bool} {Q : Post machine UInt32}

theorem wp_loadbuffer_fives {idblevel level : Nat} {idblock : UInt32} (h : Fives w)
    (hok : ∀ w', Fives w' → w'.st.bufs.blockbuf = (fun _ => 5) → Q.ok idblock w') :
    (loadbuffer sv idblevel idblock 5 level).wp Q w := by
  have ha : Addressable 5 w.st.fs := by
    refine ⟨?_, ?_⟩
    · rw [h.size]
      decide
    · rw [h.size]
      decide
  refine wp_loadbuffer_load (by decide) ha ?_ fun w' _ hr => absurd h.reads hr
  intro w' hc hv hb
  have hfs : w'.st.fs = w.st.fs := congrArg Vol.fs hv
  have hdisk : w'.env.disk = w.env.disk := congrArg Vol.disk hv
  refine hok w' ⟨hc.reads h.reads, ?_, ?_⟩ ?_
  · rw [hfs, h.size]
  · rw [hdisk]
    exact h.disk
  · rw [hb]
    change (w.env.disk _).words = _
    rw [h.disk]
    exact Sector.words_ofWords _

theorem wp_getBlock_fives {idblock : UInt32} {n : Nat} (hb : w.st.bufs.blockbuf = fun _ => 5)
    (hn : n < 128) (hok : Q.ok 5 w) : (getBlock sv doalloc idblock n).wp Q w := by
  have hfive : ¬ ((5 : UInt32) = 0 ∧ doalloc = true) := fun h0 => absurd h0.1 (by decide)
  unfold getBlock
  rw [dif_pos hn, Prog.wp_bind, wp_getKernel]
  dsimp only
  rw [hb, if_neg hfive, Prog.wp_pure]
  exact hok

theorem wp_walkAlong_fives {idblevel : Nat} {idblock : UInt32} (path : List Nat) (h : Fives w)
    (hb : w.st.bufs.blockbuf = fun _ => 5) (hp : ∃ i ∈ path, ¬ i < 128)
    (hstop : ∀ n w', Q.stopped (.blockbufIndex n) w') :
    (walkAlong sv doalloc idblevel idblock path).wp Q w := by
  induction path generalizing w idblock with
  | nil =>
    obtain ⟨i, hi, -⟩ := hp
    cases hi
  | cons i path ih =>
    by_cases hi : i < 128
    · have hrest : ∃ i ∈ path, ¬ i < 128 := by
        obtain ⟨j, hj, hn⟩ := hp
        rcases List.mem_cons.mp hj with rfl | hj
        · exact absurd hi hn
        · exact ⟨j, hj, hn⟩
      cases path with
      | nil =>
        obtain ⟨j, hj, -⟩ := hrest
        cases hj
      | cons j path =>
        simp only [walkAlong, descend, Prog.wp_bind]
        refine wp_getBlock_fives hb hi ?_
        dsimp only
        rw [wp_modifyBufs]
        refine wp_loadbuffer_fives ⟨h.reads, h.size, h.disk⟩ fun w' hw' hb' => ?_
        exact ih hw' hb' hrest
    · cases path with
      | nil => exact wp_getBlock_outside hi (hstop i w)
      | cons j path =>
        simp only [walkAlong, Prog.wp_bind]
        exact wp_getBlock_outside hi (hstop i w)

/-- A subscript of 128 or more is used when all the pointers are there. -/
theorem wp_sfsBmap_fives {fb : Nat} (h : Fives w) (hfb : 15 ≤ fb) (ha : Accepted fb)
    (hroot : (w.st.fs.heap sv).svI.root (visits fb).1 = 5)
    (hp : ∃ i ∈ (visits fb).2, ¬ i < 128) : (sfsBmap sv fb doalloc).wp LeavesBuffer w := by
  obtain ⟨f, heq⟩ := sfsBmap_eq sv doalloc hfb ha
  rw [heq, Prog.wp_bind, wp_getVnode]
  dsimp only
  have hfive : ¬ ((5 : UInt32) = 0 ∧ ¬ doalloc = true) := fun h0 => absurd h0.1 (by decide)
  rw [hroot, if_neg hfive, Prog.wp_bind]
  refine wp_loadbuffer_fives h fun w' hw' hb' => ?_
  dsimp only
  rw [Prog.wp_bind]
  exact wp_walkAlong_fives _ hw' hb' hp fun n _ => ⟨n, rfl⟩

end Fives

theorem visits_beyond {fb : Nat} (h : bufferLimit ≤ fb) :
    (visits fb).1 = .triple ∧ ∃ i ∈ (visits fb).2, ¬ i < 128 := by
  simp only [bufferLimit, doubleLimit] at h
  have hv : visits fb = (.triple, subscripts 3 (fb - 15 - (128 * 128 - 128))) := by
    rw [visits, dif_neg (by omega), if_pos (by omega)]
  rw [hv]
  refine ⟨rfl, (fb - 15 - (128 * 128 - 128)) / 128, ?_, by omega⟩
  simp [subscripts, sfsDbperidb]

/-- A volume in which every pointer is 5. -/
def fives : World :=
  { smallVolume with
    st := { smallVolume.st with fs := smallVolume.st.fs.modifyInode 0 fun i =>
      { i with sfiTripleindirect := 5 } }
    env := { smallVolume.env with disk := fun _ => Sector.ofWords fun _ => 5 } }

theorem fives_leaves {fb : Nat} (h : bufferLimit ≤ fb) (ha : Accepted fb) (doalloc : Bool) :
    ∃ n w', (sfsBmap 0 fb doalloc).run machine fives = (.stopped (.blockbufIndex n), w') := by
  obtain ⟨hslot, hp⟩ := visits_beyond h
  have hfb : 15 ≤ fb := by
    simp only [bufferLimit, doubleLimit] at h
    omega
  have hroot : (fives.st.fs.heap 0).svI.root (visits fb).1 = 5 := by
    rw [hslot]
    rfl
  have hwp : (sfsBmap 0 fb doalloc).wp LeavesBuffer fives :=
    wp_sfsBmap_fives ⟨rfl, rfl, fun _ => rfl⟩ hfb ha hroot hp
  have hw := (Prog.wp_iff ..).mp hwp
  generalize hr : (sfsBmap 0 fb doalloc).run machine fives = r at hw
  obtain ⟨o, w'⟩ := r
  cases o with
  | ok a => exact absurd hw id
  | err e => exact absurd hw id
  | stopped m =>
    obtain ⟨n, rfl⟩ := hw
    exact ⟨n, w', rfl⟩

/-! ## Slots -/

theorem visits_inj {fb fb' : Nat} (h : visits fb = visits fb') : fb = fb' := by
  unfold visits at h
  simp only [subscripts, sfsDbperidb, OfNat.ofNat_ne_one, Nat.reduceEqDiff, if_true, if_false]
    at h
  split at h
  · split at h
    · simpa using h
    · split at h
      · cases h
      · split at h <;> cases h
  · split at h
    · split at h
      · cases h
      · split at h
        · simp only [Prod.mk.injEq, List.cons.injEq, true_and, and_true] at h
          omega
        · split at h <;> cases h
    · split at h
      · split at h
        · cases h
        · split at h
          · cases h
          · split at h
            · simp only [Prod.mk.injEq, List.cons.injEq, true_and, and_true] at h
              omega
            · cases h
      · split at h
        · cases h
        · split at h
          · cases h
          · split at h
            · cases h
            · simp only [Prod.mk.injEq, List.cons.injEq, true_and, and_true] at h
              omega

/-- The slots of a tree: as many subscripts as the tree has levels, all in range. -/
structure IsSlot (s : Slot) (path : List Nat) : Prop where
  tree : ∀ i, s ≠ .direct i
  length : path.length = s.depth
  range : ∀ i ∈ path, i < 128

/-- The slots of the triple indirect tree that no file block comes to. -/
def Skipped : Slot → List Nat → Prop
  | .triple, i :: j :: _ => i ≠ 0 ∨ j < 2
  | _, _ => False

theorem visits_indirect {j : Nat} (hj : j < 128) : visits (15 + j) = (.indirect, [j]) := by
  rw [visits, dif_neg (by omega), if_neg (by omega), if_neg (by omega)]
  simp only [subscripts, sfsDbperidb, if_true, Prod.mk.injEq, List.cons.injEq, true_and, and_true]
  omega

theorem visits_double {i j : Nat} (hi : i < 128) (hj : j < 128) :
    visits (15 + 128 + 128 * i + j) = (.double, [i, j]) := by
  rw [visits, dif_neg (by omega), if_neg (by omega), if_pos (by omega)]
  simp only [subscripts, sfsDbperidb, OfNat.ofNat_ne_one, if_true, if_false, Prod.mk.injEq,
    List.cons.injEq, true_and, and_true]
  omega

theorem visits_triple {j k : Nat} (hj : j < 128) (hk : k < 128) (h : 2 ≤ j) :
    visits (15 + (128 * 128 - 128) + 128 * j + k) = (.triple, [0, j, k]) := by
  rw [visits, dif_neg (by omega), if_pos (by omega)]
  simp only [subscripts, sfsDbperidb, OfNat.ofNat_ne_one, Nat.reduceEqDiff, if_false,
    Prod.mk.injEq, List.cons.injEq, true_and, and_true]
  omega

theorem not_skipped {fb : Nat} {s : Slot} {path : List Nat} (h : visits fb = (s, path))
    (hs : IsSlot s path) : ¬ Skipped s path := by
  have hlt : fb < bufferLimit := by
    by_contra hge
    obtain ⟨i, hi, hn⟩ := (visits_beyond (Nat.not_lt.mp hge)).2
    rw [h] at hi
    exact hn (hs.range i hi)
  simp only [bufferLimit, doubleLimit] at hlt
  unfold visits at h
  split at h
  · cases h
    exact id
  · split at h
    · cases h
      simp only [subscripts, sfsDbperidb, OfNat.ofNat_ne_one, Nat.reduceEqDiff, if_false, Skipped]
      omega
    · split at h
      · cases h
        exact id
      · cases h
        exact id

theorem visits_iff {s : Slot} {path : List Nat} (hs : IsSlot s path) :
    (∃ fb, Accepted fb ∧ visits fb = (s, path)) ↔ ¬ Skipped s path := by
  refine ⟨fun ⟨fb, _, h⟩ => not_skipped h hs, fun hn => ?_⟩
  obtain ⟨ht, hl, hr⟩ := hs
  cases s with
  | direct i => exact absurd rfl (ht i)
  | indirect =>
    obtain ⟨j, rfl⟩ := List.length_eq_one_iff.mp hl
    have hj := hr j (by simp)
    exact ⟨_, by simp only [Accepted]; omega, visits_indirect hj⟩
  | double =>
    obtain ⟨i, j, rfl⟩ := List.length_eq_two.mp hl
    have hi := hr i (by simp)
    have hj := hr j (by simp)
    exact ⟨_, by simp only [Accepted]; omega, visits_double hi hj⟩
  | triple =>
    obtain ⟨i, j, k, rfl⟩ := List.length_eq_three.mp hl
    have hj := hr j (by simp)
    have hk := hr k (by simp)
    simp only [Skipped, not_or, not_not, not_lt] at hn
    obtain ⟨rfl, h2⟩ := hn
    exact ⟨_, by simp only [Accepted]; omega, visits_triple hj hk h2⟩

/-! ## The subscripts and slots of every file block -/

/-- `sfs_bmap` walks along what it visits, and distinct file blocks visit distinct slots.
The subscripts fit the buffer exactly below `bufferLimit`, and the slots of the triple
indirect tree are reached only below its first subscript 0, and not all of them. -/
theorem bmap_slots (fb : Nat) :
    (∀ sv doalloc, 15 ≤ fb → Accepted fb → ∃ fileblock, sfsBmap sv fb doalloc = (do
      let idblock := (← getVnode sv).svI.root (visits fb).1
      if idblock = 0 ∧ ¬doalloc then return 0
      else do
        let idblock ← loadbuffer sv (visits fb).1.depth idblock idblock 0
        let block ← walkAlong sv doalloc (visits fb).1.depth idblock (visits fb).2
        bmapReturn sv fileblock block)) ∧
    (Accepted fb →
      ((∀ sv doalloc, (sfsBmap sv fb doalloc).StopsOnly NotIndex) ↔ fb < bufferLimit)) ∧
    (Accepted fb →
      ((∀ sv doalloc w n w', (sfsBmap sv fb doalloc).run machine w ≠
        (.stopped (.blockbufIndex n), w')) ↔ fb < bufferLimit)) ∧
    (∀ fb', Accepted fb → Accepted fb' → visits fb = visits fb' → fb = fb') ∧
    (∀ s path, IsSlot s path →
      ((∃ fb, Accepted fb ∧ visits fb = (s, path)) ↔ ¬ Skipped s path)) := by
  refine ⟨fun sv doalloc hfb ha => sfsBmap_eq sv doalloc hfb ha, fun ha => ?_, fun ha => ?_,
    fun fb' _ _ h => visits_inj h, fun s path hs => visits_iff hs⟩
  · refine ⟨fun h => ?_, fun h sv doalloc => stops_sfsBmap sv doalloc h⟩
    by_contra hge
    obtain ⟨n, w', hr⟩ := fives_leaves (Nat.not_lt.mp hge) ha true
    exact (h 0 true).run hr n rfl
  · refine ⟨fun h => ?_, fun h sv doalloc w n w' hr => (stops_sfsBmap sv doalloc h).run hr n rfl⟩
    by_contra hge
    obtain ⟨n, w', hr⟩ := fives_leaves (Nat.not_lt.mp hge) ha true
    exact h 0 true fives n w' hr

/-- File block 32655 is accepted and leaves the buffer at the second level, and no file block
comes to the first slot of the triple indirect tree. -/
theorem bmap_slots_32655 :
    Accepted 32655 ∧
      (∃ n w', (sfsBmap 0 32655 false).run machine fives = (.stopped (.blockbufIndex n), w')) ∧
      IsSlot .triple [0, 0, 0] ∧ ¬ ∃ fb, Accepted fb ∧ visits fb = (.triple, [0, 0, 0]) := by
  have ha : Accepted 32655 := by
    unfold Accepted
    decide
  have hs : IsSlot .triple [0, 0, 0] := ⟨fun i => by simp, rfl, by decide⟩
  refine ⟨ha, fives_leaves (by decide) ha false, hs, fun h => ?_⟩
  exact (visits_iff hs).mp h (.inr (by decide))

end Os161.Sfs

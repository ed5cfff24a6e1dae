import Os161.Sfs.TruncateVolume

/-! # What was behind the end of a file

A file is cut, then written, cut or extended and read in any order. Bytes that were behind the cut
come back exactly if one that is not 0 lies in a file block the truncation leaves in place. -/
namespace Os161.Sfs
open Os161.Lib Kern Vol

variable {L : UInt32 → Prop} {v v' : Vol} {sv : Ptr} {w w' : World} {a len : Int} {x fb : Nat}
  {u : Uio} {src l : List UInt8} {op : FileOp} {ops : List FileOp}

/-! ## Runs -/

inductive FileOp where
  | io (u : Uio) (src : List UInt8) (sound : u.Sound src)
  | truncate (len : Int)

inductive FileRet where
  | moved (u : Uio) (r : Result)
  | cut

/-- `sfs_read` or `sfs_write`. -/
def transferCall (sv : Ptr) (u : Uio) : Kern (Uio × Result) :=
  if u.uioRw = .uioRead then sfsRead sv u else sfsWrite sv u

theorem transferCall_eq (sv : Ptr) (u : Uio) : transferCall sv u = sfsIo sv u := by
  unfold transferCall
  split
  · next hr => rw [sfsRead, if_pos hr]
  · next hr => rw [sfsWrite, if_pos (UioRw.not_read.mp hr)]

def FileOp.call (sv : Ptr) : FileOp → Kern FileRet
  | .io u _ _ => do
    let (u', r) ← transferCall sv u
    return .moved u' r
  | .truncate len => do
    sfsTruncate sv len
    return .cut

/-- One operation after the other. -/
def fileRun (sv : Ptr) : List FileOp → Kern (List FileRet)
  | [] => pure []
  | op :: ops => do
    let r ← op.call sv
    return r :: (← fileRun sv ops)

/-- The operation, which returned `r`, wrote the byte at `x`. -/
def FileOp.Wrote : FileOp → FileRet → Nat → Prop
  | .io u _ _, .moved u' _, x => u.uioRw = .uioWrite ∧ u.pos ≤ x ∧ x < u'.pos
  | _, _, _ => False

def Unwritten : List FileOp → List FileRet → Nat → Prop
  | op :: ops, r :: rs, x => ¬ op.Wrote r x ∧ Unwritten ops rs x
  | _, _, _ => True

/-- After the file was cut to `a` bytes, whatever else is done to it, a byte from `a` on that was
not written since is 0 whenever it is read. -/
def Hides (sv : Ptr) (a : Int) (w : World) : Prop :=
  ∀ w₁, (sfsTruncate sv a).run machine w = (.ok (), w₁) →
  ∀ ops rs w₂, (fileRun sv ops).run machine w₁ = (.ok rs, w₂) →
  ∀ u src, Uio.Sound u src → u.uioRw = .uioRead →
  ∀ u' r w₃, (sfsRead sv u).run machine w₂ = (.ok (u', r), w₃) →
  ∀ x : Nat, a ≤ x → u.pos ≤ x → x < u'.pos → Unwritten ops rs x →
    u'.iovOut[u.iovOut.length + (x - u.pos)]? = some 0

/-! ## Bytes that nobody writes -/

/-- The bytes outside `W` are as they were, or 0. -/
structure Fades (L : UInt32 → Prop) (sv : Ptr) (W : Nat → Prop) (w w' : World) : Prop where
  ready : Ready L sv w'
  ino : (vol w').ino sv = (vol w).ino sv
  bytes : ∀ x, ¬ W x → (vol w').byte ((vol w).ino sv) x = (vol w).byte ((vol w).ino sv) x ∨
    (vol w').byte ((vol w).ino sv) x = 0

theorem Fades.trans {w'' : World} {W W' : Nat → Prop} (h : Fades L sv W w w')
    (h' : Fades L sv W' w' w'') : Fades L sv (fun x => W x ∨ W' x) w w'' where
  ready := h'.ready
  ino := h'.ino.trans h.ino
  bytes x hx := by
    rw [not_or] at hx
    have h1 := h.bytes x hx.1
    have h2 := h'.bytes x hx.2
    rw [h.ino] at h2
    rcases h2 with h2 | h2
    · rw [h2]
      exact h1
    · exact .inr h2

/-- A transfer writes the bytes that went through the uio. -/
theorem Transferred.byte {π : Perm} (h : Ready L sv w) (ht : Transferred π L sv src u w l w') :
    (vol w').byte ((vol w).ino sv) = if u.uioRw = .uioWrite then
      overlay ((vol w).byte ((vol w).ino sv)) u.pos l else (vol w).byte ((vol w).ino sv) := by
  obtain ⟨w₁, hm, -, hv⟩ := ht
  have hino := hm.grown.here.ino_eq
  rw [hv]
  split
  · next hw =>
    have hsv₁ : sv ∈ (vol w₁).fs.sfsVnodes := by rw [hm.grown.here.vnodes]; exact h.vnode
    have := Vol.get_content_extend hm.grown.core hsv₁ (u.pos + l.length)
    rw [hino, hm.wrote hw] at this
    exact this
  · next hw =>
    have hr : u.uioRw = .uioRead := by
      by_contra hr
      exact hw (UioRw.not_read.mp hr)
    funext x
    rw [Vol.byte, Vol.byte, hm.same hr]

theorem Transferred.high {π : Perm} (ht : Transferred π L sv src u w l w') :
    u.pos + l.length < 2 ^ 31 := by
  obtain ⟨w₁, hm, -, -⟩ := ht
  exact hm.high

theorem Transferred.ino_eq {π : Perm} (ht : Transferred π L sv src u w l w') (h : Ready L sv w) :
    (vol w').ino sv = (vol w).ino sv := by
  rw [(ht.worked h.core h.vnode).here.ino_eq]

theorem Transferred.fades {π : Perm} (h : Ready L sv w) (hs : u.Sound src) {r : Result}
    (ht : Transferred π L sv src u w l w') :
    Fades L sv ((FileOp.io u src hs).Wrote (.moved (u.advance l) r)) w w' where
  ready := h.transferred ht
  ino := ht.ino_eq h
  bytes x hx := by
    left
    rw [ht.byte h]
    split
    · next hw =>
      have hpos := hs.pos_advance ht.high
      by_cases hlt : x < u.pos
      · exact overlay_of_lt l hlt
      · refine overlay_of_ge ?_
        by_contra hge
        exact hx ⟨hw, Nat.le_of_not_lt hlt, by rw [hpos]; exact Nat.lt_of_not_le hge⟩
    · rfl

theorem wp_fileOp (h : Ready L sv w) (op : FileOp) :
    (op.call sv).wp ⟨fun r w' => Fades L sv (op.Wrote r) w w', fun _ _ => True,
      fun _ _ => True⟩ w := by
  cases op with
  | io u src hs =>
    have hio : (sfsIo sv u).wp ⟨fun x w' => Fades L sv
        ((FileOp.io u src hs).Wrote (.moved x.1 x.2)) w w', fun _ _ => True,
        fun _ _ => True⟩ w := by
      refine wp_sfsIo (π := ⟨u.uioRw = .uioWrite, True, True⟩) (L := L)
        ⟨h.core, h.vnode, h.writes, hs, Iff.rfl, fun _ _ => trivial, fun _ _ _ _ _ => trivial,
          fun _ _ => ?_, fun l w' _ ht _ => ht.fades h hs, fun l w' e ht _ => ht.fades h hs,
          fun _ _ _ => trivial⟩
      exact ⟨h, rfl, fun _ _ => .inl rfl⟩
    rw [FileOp.call, Prog.wp_bind, transferCall_eq]
    exact hio.mono (fun x w' hx => (Prog.wp_pure _).mpr hx) (fun _ _ => id) fun _ _ => id
  | truncate len =>
    rw [FileOp.call, Prog.wp_bind]
    refine wp_sfsTruncate_volume h fun w' hs hc => ?_
    dsimp only
    rw [Prog.wp_pure]
    refine ⟨⟨hs.core, ?_, hc.reads h.reads, hc.writes h.writes⟩, ?_, fun x _ => hs.byte_or x⟩
    · rw [hs.here.vnodes]
      exact h.vnode
    · rw [hs.here.ino_eq]

theorem wp_fileRun (h : Ready L sv w) (ops : List FileOp) :
    (fileRun sv ops).wp ⟨fun rs w' => Fades L sv (fun x => ¬ Unwritten ops rs x) w w',
      fun _ _ => True, fun _ _ => True⟩ w := by
  induction ops generalizing w with
  | nil =>
    rw [fileRun, Prog.wp_pure]
    exact ⟨h, rfl, fun _ _ => .inl rfl⟩
  | cons op ops ih =>
    rw [fileRun, Prog.wp_bind]
    refine (wp_fileOp h op).mono (fun r w₁ h₁ => ?_) (fun _ _ => id) fun _ _ => id
    dsimp only
    rw [Prog.wp_bind]
    refine (ih h₁.ready).mono (fun rs w₂ h₂ => ?_) (fun _ _ => id) fun _ _ => id
    dsimp only
    rw [Prog.wp_pure]
    have ht := h₁.trans h₂
    refine ⟨ht.ready, ht.ino, fun x hx => ht.bytes x ?_⟩
    rw [Unwritten, not_not] at hx
    rw [not_or, not_not]
    exact hx

/-! ## What the truncation leaves -/

/-- The truncation to `a` bytes takes file block `fb` away. -/
def Discards (v : Vol) (sv : Ptr) (a : Int) (fb : Nat) : Prop :=
  ∃ s l, fbPath fb = some (s, l) ∧ Takes v sv (truncBlocklen a) s l

/-- A byte behind the new end that is not 0 lies in a file block that is taken away. -/
def TailClear (v : Vol) (sv : Ptr) (a : Int) : Prop :=
  ∀ x : Nat, a ≤ x → v.byte (v.ino sv) x ≠ 0 → Discards v sv a (x / 512)

theorem fileBlock_of_byte {i : UInt32} (h : v.byte i x ≠ 0) : v.fileBlock i (x / 512) ≠ 0 := by
  intro h0
  rw [Vol.byte, Vol.sector, if_pos h0] at h
  exact h rfl

theorem Shortened.byte_of_discards (h : Shortened L sv a v v') (hd : Discards v sv a (x / 512)) :
    v'.byte (v.ino sv) x = 0 := by
  obtain ⟨s, l, hf, ht⟩ := hd
  by_contra h0
  refine fileBlock_of_byte h0 ?_
  rw [fileBlock_of_path hf]
  exact h.taken s l (Nat.le_of_eq (fbPath_length hf)) ht

theorem Shortened.byte_of_not_discards (h : Shortened L sv a v v')
    (hd : ¬ Discards v sv a (x / 512)) : v'.byte (v.ino sv) x = v.byte (v.ino sv) x := by
  refine h.byte_eq ?_
  cases hf : fbPath (x / 512) with
  | none => rw [fileBlock_of_none hf, fileBlock_of_none hf]
  | some k =>
    obtain ⟨s, l⟩ := k
    rw [fileBlock_of_path hf, fileBlock_of_path hf]
    exact h.left s l (Nat.le_of_eq (fbPath_length hf)) fun ht => hd ⟨s, l, hf, ht⟩

/-- Behind the cut nothing but zeros is left exactly if the tail is clear. -/
theorem Shortened.zero_iff (h : Shortened L sv a v v') :
    (∀ x : Nat, a ≤ x → v'.byte (v.ino sv) x = 0) ↔ TailClear v sv a := by
  constructor
  · intro hz x hx h0
    by_contra hd
    exact h0 ((h.byte_of_not_discards hd).symm.trans (hz x hx))
  · intro hc x hx
    by_cases hd : Discards v sv a (x / 512)
    · exact h.byte_of_discards hd
    · rw [h.byte_of_not_discards hd]
      by_contra h0
      exact hd (hc x hx h0)

theorem Shortened.ready (h : Shortened L sv a (vol w) (vol w')) (hw : Ready L sv w)
    (hc : Calm w w') : Ready L sv w' :=
  ⟨h.core, by rw [h.here.vnodes]; exact hw.vnode, hc.reads hw.reads, hc.writes hw.writes⟩

/-- With no faults the truncation returns. -/
theorem truncate_run (h : Ready L sv w) (a : Int) : ∃ w',
    (sfsTruncate sv a).run machine w = (.ok (), w') ∧ Shortened L sv a (vol w) (vol w') ∧
      Ready L sv w' := by
  obtain ⟨⟨⟩, w', hrun, hs⟩ := Prog.ok_of_wp (p := sfsTruncate sv a)
    (P := fun _ w' => Shortened L sv a (vol w) (vol w') ∧ Ready L sv w')
    (wp_sfsTruncate_volume h fun w' hs hc => ⟨hs, hs.ready h hc⟩)
  exact ⟨w', hrun, hs⟩

/-! ## Reading -/

/-- What a read delivers is what the file holds. -/
theorem wp_sfsRead_bytes (h : Ready L sv w) (hs : u.Sound src) (hr : u.uioRw = .uioRead) :
    (sfsRead sv u).wp ⟨fun y _ => ∀ x, u.pos ≤ x → x < y.1.pos →
      y.1.iovOut[u.iovOut.length + (x - u.pos)]? = some ((vol w).byte ((vol w).ino sv) x),
      fun _ _ => True, fun _ _ => True⟩ w := by
  have hgot {π : Perm} {l : List UInt8} {w' : World} (ht : Transferred π L sv src u w l w')
      (x : Nat) (hlo : u.pos ≤ x) (hhi : x < (u.advance l).pos) :
      (u.advance l).iovOut[u.iovOut.length + (x - u.pos)]? =
        some ((vol w).byte ((vol w).ino sv) x) := by
    rw [hs.pos_advance ht.high] at hhi
    obtain ⟨w₁, hm, -, -⟩ := ht
    have hout : (u.advance l).iovOut = u.iovOut ++ l := by rw [Uio.advance, hr]; rfl
    have hbyte : (slice ((vol w).byte ((vol w).ino sv)) u.pos l.length)[x - u.pos]? =
        some ((vol w).byte ((vol w).ino sv) x) := by
      rw [List.getElem?_eq_getElem (by rw [length_slice]; omega), getElem_slice]
      congr 2
      omega
    rw [← hm.got hr] at hbyte
    rw [hout, List.getElem?_append_right (Nat.le_add_right _ _), Nat.add_sub_cancel_left, hbyte]
  rw [sfsRead, if_pos hr]
  refine wp_sfsIo (π := ⟨False, True, True⟩) (L := L)
    ⟨h.core, h.vnode, h.writes, hs, ?_, fun _ _ => trivial, fun _ _ _ _ _ => trivial,
      fun _ _ x hlo hhi => ?_, fun l w' _ ht _ => hgot ht, fun l w' e ht _ => hgot ht,
      fun _ _ _ => trivial⟩
  · rw [hr]
    exact iff_of_false (by decide) id
  · exact absurd hhi (Nat.not_lt.mpr hlo)

theorem hides_of_tailClear (h : Ready L sv w) (hc : TailClear (vol w) sv a) : Hides sv a w := by
  intro w₁ hcut ops rs w₂ hrun u src hs hr u' r w₃ hread x hx hlo hhi hun
  obtain ⟨w', hcut', hshort, hready⟩ := truncate_run h a
  rw [hcut] at hcut'
  cases hcut'
  have hino : (vol w₁).ino sv = (vol w).ino sv := by rw [hshort.here.ino_eq]
  have hzero := hshort.zero_iff.mpr hc x hx
  have hf := Prog.wp_ok_iff.mp (wp_fileRun hready ops) rs w₂ hrun
  have hbyte : (vol w₂).byte ((vol w₂).ino sv) x = 0 := by
    rw [hf.ino]
    rcases hf.bytes x (not_not.mpr hun) with hx | hx
    · rw [hx, hino, hzero]
    · exact hx
  have hout := Prog.wp_ok_iff.mp (wp_sfsRead_bytes hf.ready hs hr) (u', r) w₃ hread x hlo hhi
  rw [hbyte] at hout
  exact hout

/-- A read of the byte at `x`, into a buffer of its own. -/
def readOne (x : Nat) : Uio := smallCall [] 1 x .uioRead

theorem readOne_sound (hx : x < 2 ^ 31) : (readOne x).Sound [] :=
  ⟨fun _ => rfl, Nat.le_refl 1, show 1 < 2 ^ 32 by decide, fun hw => (by cases hw),
    Int.natCast_nonneg x, show (x : Int) < 2 ^ 31 by omega⟩

theorem readOne_pos (x : Nat) : (readOne x).pos = x := Int.toNat_natCast x

theorem Uio.clip_same (u : Uio) (n : Int) : (u.clip n).iovPos = u.iovPos ∧
    (u.clip n).iovMapped = u.iovMapped ∧ (u.clip n).pos = u.pos := by
  unfold Uio.clip
  split <;> exact ⟨rfl, rfl, rfl⟩

/-- A byte of a mapped block before the end of the file can be read. -/
theorem readOne_run (h : Ready L sv w) (hsize : (vol w).size sv = (x + 1 : Nat))
    (hb : (vol w).fileBlock ((vol w).ino sv) (x / 512) ≠ 0) :
    ∃ u' r w', (sfsRead sv (readOne x)).run machine w = (.ok (u', r), w') ∧ u'.pos = x + 1 := by
  obtain ⟨s, l, hf, -⟩ := path_of_fileBlock hb
  have hfb := fbPath_lt hf
  simp only [bufferLimit, doubleLimit] at hfb
  have hs : (readOne x).Sound [] := readOne_sound (by omega)
  have hpos := readOne_pos x
  have hoff : (readOne x).uioOffset = (x : Nat) := rfl
  have hrw : (readOne x).uioRw = .uioRead := rfl
  have hresid : (readOne x).uioResid = 1 := rfl
  have hclip : ((readOne x).clip ((vol w).size sv)).uioResid = 1 := by
    have hend : (readOne x).pos + (readOne x).uioResid < 2 ^ 31 := by
      rw [hpos, hresid]
      omega
    have hlt : (readOne x).uioOffset < ((x + 1 : Nat) : Int) := by
      rw [hoff]
      omega
    have hclip := hs.clip_resid hrw hend hlt
    rw [hpos, hresid] at hclip
    rw [hsize, hclip]
    omega
  obtain ⟨hciov, hcmap, hcpos⟩ := Uio.clip_same (readOne x) ((vol w).size sv)
  rw [hpos] at hcpos
  have honly {fb : Nat} (ht : ((readOne x).clip ((vol w).size sv)).Touches fb) : fb = x / 512 := by
    obtain ⟨h1, h2⟩ := ht
    rw [Uio.block, hcpos] at h1
    rw [hcpos, hclip] at h2
    omega
  have hwp : (sfsRead sv (readOne x)).wp ⟨fun y _ => y.1.pos = x + 1, fun _ _ => False,
      fun _ _ => False⟩ w := by
    rw [sfsRead, if_pos hrw]
    refine wp_sfsIo (π := ⟨False, True, True⟩) (L := L)
      ⟨h.core, h.vnode, h.writes, hs, iff_of_false (by rw [hrw]; decide) id, fun _ _ => trivial,
        fun _ _ _ _ _ => trivial, fun _ heof => ?_, fun l w' _ ht hl => ?_,
        fun l w' e _ he => ?_, fun m w' hx => ?_⟩
    · rw [hsize, hoff] at heof
      omega
    · dsimp only
      rw [hs.pos_advance ht.high, hl, hclip, hpos]
    · exfalso
      rcases he with ⟨-, hr⟩ | ⟨-, hm⟩ | ⟨-, fb, ht, h0, -⟩ | ⟨-, fb, ht, hge⟩
      · exact hr h.reads
      · rw [hclip, hciov, hcmap, show (readOne x).iovMapped = 1 from rfl,
          show (readOne x).iovPos = 0 from rfl] at hm
        omega
      · rw [honly ht] at h0
        exact hb h0
      · have := honly ht
        simp only [doubleLimit] at hge
        omega
    · obtain ⟨fb, ht, hge⟩ := hx
      have := honly ht
      simp only [bufferLimit, doubleLimit] at hge
      omega
  obtain ⟨⟨u', r⟩, w', hrun, hp⟩ := Prog.ok_of_wp hwp
  exact ⟨u', r, w', hrun, hp⟩

theorem tailClear_of_hides (h : Ready L sv w) (hh : Hides sv a w) : TailClear (vol w) sv a := by
  intro x hx h0
  by_contra hd
  obtain ⟨w₁, hcut, hs₁, h₁⟩ := truncate_run h a
  have hino₁ : (vol w₁).ino sv = (vol w).ino sv := by rw [hs₁.here.ino_eq]
  have hb₁ : (vol w₁).byte ((vol w₁).ino sv) x ≠ 0 := by
    rw [hino₁, hs₁.byte_of_not_discards hd]
    exact h0
  obtain ⟨s, l, hf, -⟩ := path_of_fileBlock (fileBlock_of_byte hb₁)
  have hfb := fbPath_lt hf
  simp only [bufferLimit, doubleLimit] at hfb
  -- the file is extended over the byte again
  obtain ⟨w₂, hext, hs₂, h₂⟩ := truncate_run h₁ (x + 1 : Nat)
  have hino₂ : (vol w₂).ino sv = (vol w₁).ino sv := by rw [hs₂.here.ino_eq]
  have hb₂ : (vol w₂).byte ((vol w₂).ino sv) x ≠ 0 := by
    rw [hino₂, hs₂.bytes h₁.core h₁.vnode (by omega) (by omega) (by omega)]
    exact hb₁
  have hsize : (vol w₂).size sv = (x + 1 : Nat) := by
    have hsz := hs₂.size
    rw [← hino₂, h₂.core.inode_eq h₂.vnode] at hsz
    rw [Vol.size, hsz, UInt32.toNat_ofNat', u32_natCast (by omega), Nat.mod_eq_of_lt (by omega),
      i32_eq (by omega) (by omega)]
  obtain ⟨u', r, w₃, hread, hpos⟩ := readOne_run h₂ hsize (fileBlock_of_byte hb₂)
  have hrun : (fileRun sv [.truncate (x + 1 : Nat)]).run machine w₁ = (.ok [.cut], w₂) := by
    have hwp : (fileRun sv [.truncate (x + 1 : Nat)]).wp
        ⟨fun rs w' => rs = [.cut] ∧ w' = w₂, fun _ _ => False, fun _ _ => False⟩ w₁ := by
      rw [fileRun, Prog.wp_bind, FileOp.call, Prog.wp_bind, Prog.wp_iff, hext]
      show Prog.wp _ _ _
      rw [Prog.wp_pure]
      dsimp only
      rw [Prog.wp_bind, fileRun, Prog.wp_pure]
      dsimp only
      rw [Prog.wp_pure]
      exact ⟨rfl, rfl⟩
    obtain ⟨rs, w', hrun, rfl, rfl⟩ := Prog.ok_of_wp hwp
    exact hrun
  have hsound : (readOne x).Sound [] := readOne_sound (by omega)
  have hzero := hh w₁ hcut _ _ w₂ hrun (readOne x) [] hsound rfl u' r w₃ hread x hx
    (Nat.le_of_eq (readOne_pos x)) (by omega) ⟨id, trivial⟩
  have hbyte := Prog.wp_ok_iff.mp (wp_sfsRead_bytes h₂ hsound rfl) (u', r) w₃ hread x
    (Nat.le_of_eq (readOne_pos x)) (by rw [hpos]; omega)
  dsimp only at hbyte
  rw [hzero] at hbyte
  exact hb₂ (Option.some.inj hbyte).symm

/-! ## Two bytes -/

/-- Two bytes are written at 3. -/
def tailCall : Call :=
  ⟨smallCall [5, 6] 2 3 .uioWrite, [5, 6],
    ⟨fun _ => rfl, by decide, by decide, by decide, by decide, by decide⟩, by decide, by decide⟩

def tailWorld : World := ((tailCall.run 0).run machine smallVolume).2

theorem tailWorld_run :
    (((tailCall.run 0).run machine smallVolume).1 matches .ok (_, none)) = true := by
  decide +kernel

theorem tailWorld_holds : Ready (fun i => i = 1 ∨ i = 3) 0 tailWorld ∧
    Holds (vol tailWorld) 0 (SparseArray.empty.write 3 [5, 6]) := by
  have hwp := wp_call (Q := ⟨fun r w' => Ready (fun i => i = 1 ∨ i = 3) 0 w' ∧
    (r.2 = none → Holds (vol w') 0 (SparseArray.empty.write 3 [5, 6])), fun _ _ => False,
    fun _ _ => False⟩) smallVolume_ready tailCall fun r w' h hr => ⟨h, fun hnone => by
      rcases hr with hr | hr
      · rw [hnone] at hr
        cases hr
      · exact (hr _ smallVolume_holds (by decide)).2⟩
  have hrun := tailWorld_run
  rw [Prog.wp_iff] at hwp
  rw [tailWorld]
  generalize (tailCall.run 0).run machine smallVolume = y at hwp hrun
  obtain ⟨o, w'⟩ := y
  cases o with
  | err e => cases hrun
  | stopped m => cases hrun
  | ok r =>
    obtain ⟨u, r⟩ := r
    cases r with
    | none => exact ⟨hwp.1, hwp.2 rfl⟩
    | some e => cases hrun

theorem tailWorld_byte (x : Nat) : (vol tailWorld).byte ((vol tailWorld).ino 0) x =
    (SparseArray.empty.write 3 [5, 6]).get x := by
  rw [tailWorld_holds.2.bytes]

/-- The second byte comes back after the file was cut in front of it and extended again. -/
theorem truncate_exposes : ¬ Hides 0 4 tailWorld := by
  intro h
  obtain ⟨s, l, hf, ht⟩ := tailClear_of_hides tailWorld_holds.1 h 4 (by decide)
    (by rw [tailWorld_byte]; decide)
  rw [show 4 / 512 = ((0 : Fin 15) : Nat) from rfl, fbPath_direct] at hf
  cases hf
  rcases ht with ⟨i, hi, hn⟩ | ⟨-, hs⟩ | ⟨-, j, hj, -⟩
  · cases hi
    revert hn
    decide
  · exact absurd hs (Nat.lt_irrefl 0)
  · cases hj

/-- No byte that was behind the new end is read again, whatever is done to the file, if and only if
the file blocks that the truncation leaves in place hold nothing but zeros there. -/
theorem hides_iff (L : UInt32 → Prop) (sv : Ptr) (a : Int) (w : World) (h : Ready L sv w) :
    Hides sv a w ↔ TailClear (vol w) sv a :=
  ⟨tailClear_of_hides h, hides_of_tailClear h⟩

/-- A cut behind both bytes. -/
theorem hides_iff_tail : Hides 0 5 tailWorld := by
  refine (hides_iff _ 0 5 tailWorld tailWorld_holds.1).mpr fun x hx h0 => absurd ?_ h0
  rw [tailWorld_byte]
  exact overlay_of_ge (by show 3 + 2 ≤ x; omega)

end Os161.Sfs

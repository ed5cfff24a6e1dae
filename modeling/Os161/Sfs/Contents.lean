import Os161.Sfs.FileArray
import Os161.Sfs.Front

/-! # Contents of files

What every file of a volume holds, bytes behind its end included: a truncation may leave some
there. A call on one file changes the contents of that file and of no other. -/
namespace Os161.Sfs
open Os161.Lib Kern Vol

@[ext] structure Content where
  size : Nat
  get : Nat → UInt8

namespace Content

def write (f : Content) (o : Nat) (l : List UInt8) : Content where
  size := max f.size (o + l.length)
  get := overlay f.get o l

/-- At most `n` bytes from `o`, up to the end. -/
def read (f : Content) (o n : Nat) : List UInt8 := slice f.get o (min n (f.size - o))

end Content

def Vol.content (v : Vol) (i : UInt32) : Content := ⟨(v.inode i).sfiSize.toNat, v.byte i⟩

section Steps

variable {L : UInt32 → Prop} {π : Perm} {v v' : Vol} {w w' : World} {sv p : Ptr} {i : UInt32}
  {src l : List UInt8} {u : Uio}

/-- A call on the file in `p` that keeps its type and its link count. -/
structure Worked (L : UInt32 → Prop) (p : Ptr) (v v' : Vol) : Prop extends Confined L p v v' where
  linkcount : (v'.inode (v.ino p)).sfiLinkcount = (v.inode (v.ino p)).sfiLinkcount
  keep : ∀ fb, v.fileBlock (v.ino p) fb ≠ 0 → v'.fileBlock (v.ino p) fb ≠ 0
  front : Front v v'

theorem Confined.content (h : Confined L p v v') (hi : L i) (hn : i ≠ v.ino p) :
    v'.content i = v.content i := by
  unfold Vol.content
  rw [h.inode i hi hn, Content.mk.injEq]
  refine ⟨rfl, funext fun x => ?_⟩
  rw [Vol.byte, Vol.byte, h.sector i hi hn]

theorem Confined.fileBlock (h : Confined L p v v') (hi : L i) (hn : i ≠ v.ino p) (fb : Nat) :
    v'.fileBlock i fb = v.fileBlock i fb := by
  cases hf : fbPath fb with
  | none => rw [fileBlock_of_none hf, fileBlock_of_none hf]
  | some k =>
    obtain ⟨s, m⟩ := k
    rw [fileBlock_of_path hf, fileBlock_of_path hf]
    exact h.ref i hi hn s m (Nat.le_of_eq (fbPath_length hf))

theorem Touched.fileBlock (h : Touched L p v v') (hi : L i) (fb : Nat) :
    v'.fileBlock i fb = v.fileBlock i fb := by
  cases hf : fbPath fb with
  | none => rw [fileBlock_of_none hf, fileBlock_of_none hf]
  | some k =>
    obtain ⟨s, m⟩ := k
    rw [fileBlock_of_path hf, fileBlock_of_path hf]
    exact h.places i hi s m (Nat.le_of_eq (fbPath_length hf))

theorem Touched.byte (h : Touched L p v v') (hi : L i) : v'.byte i = v.byte i :=
  funext fun x => by rw [Vol.byte, Vol.byte, h.same i hi]

namespace Worked

theorem refl (h : Core L v) (p : Ptr) : Worked L p v v :=
  ⟨.refl h p, rfl, fun _ => id, .refl v⟩

theorem trans {a b c : Vol} (h : Worked L p a b) (h' : Worked L p b c) : Worked L p a c where
  toConfined := h.toConfined.trans h'.toConfined
  linkcount := by
    have := h'.linkcount
    rw [h.here.ino_eq] at this
    exact this.trans h.linkcount
  keep fb h0 := by
    have := h'.keep fb
    rw [h.here.ino_eq] at this
    exact this (h.keep fb h0)
  front := h.front.trans h'.front

theorem of_grown (h : Core L v) (hp : p ∈ v.fs.sfsVnodes) (hg : Grown L p v v')
    (hs : FileSteps π p v v') : Worked L p v v' where
  toConfined := hg.toConfined
  linkcount := by
    rw [hg.here.inode_self h.toTable hp, h.inode_eq hp]
    exact hg.attrs.linkcount
  keep _ := hg.fileBlock_ne_zero
  front := hs.front h hp

theorem of_touched (h : Core L v) (hp : p ∈ v.fs.sfsVnodes) (ht : Touched L p v v')
    (hl : (v'.fs.heap p).svI.sfiLinkcount = (v.fs.heap p).svI.sfiLinkcount) :
    Worked L p v v' where
  toConfined := ht.toConfined
  linkcount := by
    rw [ht.here.inode_self h.toTable hp, h.inode_eq hp]
    exact hl
  keep fb h0 := by rwa [ht.fileBlock (h.live p hp)]
  front := .of_touched ht

theorem extend (h : Core L v) (hp : p ∈ v.fs.sfsVnodes) (o : Int) :
    Worked L p v (v.extend p o) := by
  rcases Vol.extend_touched h hp o with he | ht
  · rw [he]
    exact .refl h p
  · refine of_touched h hp ht ?_
    rw [Vol.extend]
    split
    · simp [Vol.touch]
    · rfl

end Worked

/-! ## Transfers -/

theorem Transferred.worked (h : Core L (vol w)) (hsv : sv ∈ (vol w).fs.sfsVnodes)
    (ht : Transferred π L sv src u w l w') : Worked L sv (vol w) (vol w') := by
  obtain ⟨w₁, hm, -, hv⟩ := ht
  have h₁ := Worked.of_grown h hsv hm.grown hm.steps
  rw [hv]
  split
  · exact h₁.trans (.extend hm.grown.core (by rw [hm.grown.here.vnodes]; exact hsv) _)
  · exact h₁

theorem Transferred.calm (ht : Transferred π L sv src u w l w') : Calm w w' := by
  obtain ⟨w₁, hm, hc, -⟩ := ht
  exact hm.calm.trans hc

theorem Transferred.content_read (h : Core L (vol w)) (hsv : sv ∈ (vol w).fs.sfsVnodes)
    (hr : u.uioRw = .uioRead) (ht : Transferred π L sv src u w l w') :
    (vol w').content ((vol w).ino sv) = (vol w).content ((vol w).ino sv) := by
  obtain ⟨w₁, hm, -, hv⟩ := ht
  rw [if_neg (by rw [hr]; decide)] at hv
  rw [hv, Vol.content, Vol.content, hm.grown.here.inode_self h.toTable hsv, hm.grown.attrs.size,
    h.inode_eq hsv, Content.mk.injEq]
  refine ⟨rfl, funext fun x => ?_⟩
  rw [Vol.byte, Vol.byte, hm.same hr]

theorem size_of_lt (h : Core L v) (hsv : sv ∈ v.fs.sfsVnodes)
    (hf : (v.content (v.ino sv)).size < 2 ^ 31) : v.size sv = (v.content (v.ino sv)).size := by
  simp only [Vol.content, h.inode_eq hsv] at hf ⊢
  rw [Vol.size, i32_eq (by omega) (by omega)]

theorem Vol.size_content_extend (h : Core L v) (hsv : sv ∈ v.fs.sfsVnodes)
    (hf : (v.content (v.ino sv)).size < 2 ^ 31) {n : Nat} (hn : n < 2 ^ 31) :
    ((v.extend sv (n : Nat)).content (v.ino sv)).size = max (v.content (v.ino sv)).size n := by
  have hwork := Worked.extend h hsv (n : Nat)
  have hsize := size_of_lt h hsv hf
  have hcontent : (v.content (v.ino sv)).size = (v.fs.heap sv).svI.sfiSize.toNat := by
    rw [Vol.content, h.inode_eq hsv]
  have hgoal : ((v.extend sv (n : Nat)).content (v.ino sv)).size =
      ((v.extend sv (n : Nat)).fs.heap sv).svI.sfiSize.toNat := by
    rw [Vol.content, hwork.here.inode_self h.toTable hsv]
  rw [hgoal]
  rw [Vol.extend]
  split
  · simp only [Vol.touch, heap_modifyVnode, if_true, UInt32.toNat_ofNat']
    rw [u32_natCast (by omega)]
    omega
  · omega

theorem Vol.get_content_extend (h : Core L v) (hsv : sv ∈ v.fs.sfsVnodes) (n : Nat) :
    ((v.extend sv (n : Nat)).content (v.ino sv)).get = v.byte (v.ino sv) := by
  rcases Vol.extend_touched h hsv (n : Nat) with he | he
  · rw [he]
    rfl
  · exact he.byte (h.live sv hsv)

theorem Transferred.content_write (h : Core L (vol w)) (hsv : sv ∈ (vol w).fs.sfsVnodes)
    (hf : ((vol w).content ((vol w).ino sv)).size < 2 ^ 31) (hw : u.uioRw = .uioWrite)
    (ht : Transferred π L sv src u w l w') : (vol w').content ((vol w).ino sv) =
      ((vol w).content ((vol w).ino sv)).write u.pos l := by
  obtain ⟨w₁, hm, -, hv⟩ := ht
  rw [if_pos hw] at hv
  have hino := hm.grown.here.ino_eq
  have hcore₁ := hm.grown.core
  have hsv₁ : sv ∈ (vol w₁).fs.sfsVnodes := by rw [hm.grown.here.vnodes]; exact hsv
  have hsame : ((vol w₁).content ((vol w₁).ino sv)).size =
      ((vol w).content ((vol w).ino sv)).size := by
    rw [Vol.content, hcore₁.inode_eq hsv₁, hm.grown.attrs.size, Vol.content, h.inode_eq hsv]
  have hsize := Vol.size_content_extend hcore₁ hsv₁ (hsame ▸ hf) hm.high
  have hget := Vol.get_content_extend hcore₁ hsv₁ (u.pos + l.length)
  rw [hsame, hino] at hsize
  rw [hino, hm.wrote hw] at hget
  rw [hv]
  exact Content.ext hsize hget

end Steps

/-! ## Calls on any file -/

namespace Call

variable (c : Call)

/-- The bytes that go through the uio when the call is served. -/
def bytes (f : Content) : List UInt8 :=
  if c.uio.uioRw = .uioRead then f.read c.uio.pos c.uio.uioResid else c.data

/-- How a call ends on a file that holds `f`, and what the file holds then. -/
inductive Ends (f : Content) (r : Uio × Result) : Content → Prop
  | read (hr : c.uio.uioRw = .uioRead) (h : r = (c.uio.advance (c.bytes f), none)) : Ends f r f
  | wrote (hw : c.uio.uioRw = .uioWrite) (h : r = (c.uio.advance (c.bytes f), none)) :
      Ends f r (f.write c.uio.pos c.data)
  | readFull (hr : c.uio.uioRw = .uioRead) (h : r.2 = some .enospc) : Ends f r f
  | wroteFull (hw : c.uio.uioRw = .uioWrite) (l : List UInt8) (hl : l <+: c.data)
      (h : r = (c.uio.advance l, some .enospc)) : Ends f r (f.write c.uio.pos l)

end Call

section Calls

variable {L : UInt32 → Prop} {π : Perm} {w w' : World} {sv : Ptr} {l : List UInt8} {c : Call}

theorem Call.prefix_data {src : List UInt8} {u : Uio} (ht : Transferred π L sv src u w l w')
    (hw : u.uioRw = .uioWrite) : l <+: (src.drop u.iovPos).take u.uioResid := by
  obtain ⟨w₁, hm, -, -⟩ := ht
  rw [hm.put hw]
  have hfit := hm.fits
  generalize l.length = n at *
  rw [show n = min n u.uioResid by omega, ← List.take_take]
  exact List.take_prefix _ _

/-- What a call that ran to its end has transferred. -/
theorem Call.bytes_eq (h : Core L (vol w)) (hsv : sv ∈ (vol w).fs.sfsVnodes)
    (hf : ((vol w).content ((vol w).ino sv)).size < 2 ^ 31)
    (hlt : c.uio.uioRw = .uioRead → c.uio.uioOffset < (vol w).size sv)
    (ht : Transferred π L sv c.src c.uio w l w')
    (hl : l.length = (c.uio.clip ((vol w).size sv)).uioResid) :
    l = c.bytes ((vol w).content ((vol w).ino sv)) := by
  have hrange := c.range
  simp only [rangeLimit, doubleLimit] at hrange
  obtain ⟨w₁, hm, -, -⟩ := ht
  rw [size_of_lt h hsv hf] at hlt hl
  rw [Call.bytes]
  split
  · next hr =>
    rw [c.sound.clip_resid hr (by omega) (hlt hr)] at hl
    rw [hm.got hr, hl]
    rfl
  · next hr =>
    have hw := UioRw.not_read.mp hr
    rw [Uio.clip_write hw] at hl
    rw [hm.put hw, hl]
    rfl

/-- A call on a file of a volume on which nothing goes wrong but the lack of space. -/
theorem wp_call_content {Q : Post machine (Uio × Result)} (h : Ready L sv w)
    (hf : ((vol w).content ((vol w).ino sv)).size < 2 ^ 31) (c : Call)
    (hok : ∀ r w', Worked L sv (vol w) (vol w') → Calm w w' →
      c.Ends ((vol w).content ((vol w).ino sv)) r ((vol w').content ((vol w).ino sv)) →
      Q.ok r w') : (c.run sv).wp Q w := by
  have hrange := c.range
  simp only [rangeLimit, doubleLimit] at hrange
  have hrun : c.run sv = sfsIo sv c.uio := by
    unfold Call.run
    split
    · next hr => rw [sfsRead, if_pos hr]
    · next hr => rw [sfsWrite, if_pos (UioRw.not_read.mp hr)]
  rw [hrun]
  refine wp_sfsIo (π := ⟨c.uio.uioRw = .uioWrite, True, True⟩) (L := L)
    ⟨h.core, h.vnode, h.writes, c.sound, Iff.rfl, fun _ _ => trivial, fun _ _ _ _ _ => trivial,
      ?_, ?_, ?_, ?_⟩
  · intro hr heof
    refine hok _ w (.refl h.core sv) (.refl w) (.read hr ?_)
    rw [size_of_lt h.core h.vnode hf, c.sound.offset_eq] at heof
    have hnil : c.bytes ((vol w).content ((vol w).ino sv)) = [] := by
      rw [Call.bytes, if_pos hr, Content.read, Nat.sub_eq_zero_of_le (by omega), Nat.min_zero,
        slice_zero]
    rw [hnil, c.sound.advance_nil]
  · intro l w' hlt ht hl
    have hbytes := Call.bytes_eq h.core h.vnode hf hlt ht hl
    refine hok _ w' (ht.worked h.core h.vnode) ht.calm ?_
    rw [hbytes]
    by_cases hr : c.uio.uioRw = .uioRead
    · rw [ht.content_read h.core h.vnode hr]
      exact .read hr rfl
    · have hw := UioRw.not_read.mp hr
      rw [ht.content_write h.core h.vnode hf hw, hbytes, Call.bytes, if_neg hr]
      exact .wrote hw (by rw [Call.bytes, if_neg hr])
  · intro l w' e ht he
    obtain rfl := Call.fails h he
    refine hok _ w' (ht.worked h.core h.vnode) ht.calm ?_
    by_cases hr : c.uio.uioRw = .uioRead
    · rw [ht.content_read h.core h.vnode hr]
      exact .readFull hr rfl
    · have hw := UioRw.not_read.mp hr
      rw [ht.content_write h.core h.vnode hf hw]
      exact .wroteFull hw l (Call.prefix_data ht hw) rfl
  · intro m w' hx
    obtain ⟨fb, ht, hfb⟩ := hx
    have hclip : (c.uio.clip ((vol w).size sv)).pos + (c.uio.clip ((vol w).size sv)).uioResid ≤
        c.uio.pos + c.uio.uioResid := by
      unfold Uio.clip
      split
      · exact Nat.add_le_add_left (Nat.sub_le _ _) _
      · exact Nat.le_refl _
    have := ht.2
    simp only [bufferLimit, doubleLimit] at hfb
    omega

end Calls

end Os161.Sfs

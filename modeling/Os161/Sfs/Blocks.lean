import Mathlib.Data.List.Nodup
import Mathlib.Logic.Relation
import Os161.Sfs.Volume

/-! # How the blocks of a volume change

The changes `sfs_bmap` and the file transfers make to a volume, one block at a
time (`FileStep`), and what each of them preserves. -/
namespace Os161.Sfs
open Os161.Lib Vol

variable {L : UInt32 → Prop} {v v' : Vol} {p q : Ptr} {i : UInt32}

/-! ## Loaded inodes -/

namespace Vol

theorem mem_of_loaded (h : v.loaded i = some p) : p ∈ v.fs.sfsVnodes ∧ v.ino p = i := by
  refine ⟨List.mem_of_find?_eq_some h, ?_⟩
  simpa using List.find?_some h

theorem loaded_eq_none : v.loaded i = none ↔ ∀ p ∈ v.fs.sfsVnodes, v.ino p ≠ i := by
  simp [loaded]

end Vol

theorem Table.eq_of_ino (h : Table L v) (hp : p ∈ v.fs.sfsVnodes) (hq : q ∈ v.fs.sfsVnodes)
    (he : v.ino p = v.ino q) : p = q :=
  List.inj_on_of_nodup_map h.nodup hp hq he

theorem Table.loaded_eq (h : Table L v) (hp : p ∈ v.fs.sfsVnodes) :
    v.loaded (v.ino p) = some p := by
  cases hl : v.loaded (v.ino p) with
  | none => exact absurd rfl (Vol.loaded_eq_none.mp hl p hp)
  | some q =>
    obtain ⟨hq, he⟩ := Vol.mem_of_loaded hl
    rw [h.eq_of_ino hq hp he]

theorem Table.inode_eq (h : Table L v) (hp : p ∈ v.fs.sfsVnodes) :
    v.inode (v.ino p) = (v.fs.heap p).svI := by
  simp [Vol.inode, h.loaded_eq hp]

/-! ## Changes at one vnode -/

/-- Of the vnodes only `p` changed, and of it only the inode and the dirty
flag; the superblock and the size of the free map stay. -/
structure Local (p : Ptr) (v v' : Vol) : Prop where
  vnodes : v'.fs.sfsVnodes = v.fs.sfsVnodes
  heap : ∀ q, q ≠ p → v'.fs.heap q = v.fs.heap q
  ino : (v'.fs.heap p).svIno = (v.fs.heap p).svIno
  refcount : (v'.fs.heap p).vnRefcount = (v.fs.heap p).vnRefcount
  opencount : (v'.fs.heap p).vnOpencount = (v.fs.heap p).vnOpencount
  ops : (v'.fs.heap p).vnOps = (v.fs.heap p).vnOps
  brk : v'.fs.brk = v.fs.brk
  super : v'.fs.sfsSuper = v.fs.sfsSuper
  superdirty : v'.fs.sfsSuperdirty = v.fs.sfsSuperdirty
  device : v'.fs.dBlocks = v.fs.dBlocks
  nbits : v'.fs.sfsFreemap.nbits = v.fs.sfsFreemap.nbits

namespace Local

theorem refl (p : Ptr) (v : Vol) : Local p v v := by constructor <;> intros <;> rfl

theorem trans {a b c : Vol} (h : Local p a b) (h' : Local p b c) : Local p a c := by
  obtain ⟨h1, h2, h3, h4, h5, h6, h7, h8, h9, h10, h11⟩ := h
  obtain ⟨g1, g2, g3, g4, g5, g6, g7, g8, g9, g10, g11⟩ := h'
  exact ⟨g1.trans h1, fun q hq => (g2 q hq).trans (h2 q hq), g3.trans h3, g4.trans h4,
    g5.trans h5, g6.trans h6, g7.trans h7, g8.trans h8, g9.trans h9, g10.trans h10, g11.trans h11⟩

variable (h : Local p v v')
include h

theorem ino_eq : v'.ino = v.ino := by
  funext q
  by_cases hq : q = p
  · rw [hq]; exact h.ino
  · simp only [Vol.ino, h.heap q hq]

theorem loaded_eq (i : UInt32) : v'.loaded i = v.loaded i := by
  simp only [Vol.loaded, h.vnodes, h.ino_eq]

theorem nblocks_eq : v'.nblocks = v.nblocks := by simp only [Vol.nblocks, h.super]

theorem meta_iff (b : UInt32) : v'.Meta b ↔ v.Meta b := by simp only [Vol.Meta, h.nblocks_eq]

theorem counts (q : Ptr) : (v'.fs.heap q).vnRefcount = (v.fs.heap q).vnRefcount ∧
    (v'.fs.heap q).vnOpencount = (v.fs.heap q).vnOpencount ∧
    (v'.fs.heap q).vnOps = (v.fs.heap q).vnOps := by
  by_cases hq : q = p
  · subst hq; exact ⟨h.refcount, h.opencount, h.ops⟩
  · simp [h.heap q hq]

theorem inode_eq (hi : i ≠ v.ino p)
    (hd : v.loaded i = none → v'.disk i.toNat = v.disk i.toNat) : v'.inode i = v.inode i := by
  unfold Vol.inode
  rw [h.loaded_eq]
  cases hl : v.loaded i with
  | none => simp only [hd hl]
  | some q =>
    have hq : q ≠ p := by
      intro hx
      obtain rfl := hx
      exact hi (Vol.mem_of_loaded hl).2.symm
    simp only [h.heap q hq]

theorem table (ht : Table L v) : Table L v' where
  nodup := by rw [h.vnodes, h.ino_eq]; exact ht.nodup
  live := by rw [h.vnodes, h.ino_eq]; exact ht.live
  below := by rw [h.vnodes, h.brk]; exact ht.below
  held q hq := by
    rw [h.vnodes] at hq
    rw [(h.counts q).1]
    exact ht.held q hq
  opens q hq := by
    rw [h.vnodes] at hq
    rw [(h.counts q).1, (h.counts q).2.1]
    exact ht.opens q hq

theorem inode_self (ht : Table L v) (hp : p ∈ v.fs.sfsVnodes) :
    v'.inode (v.ino p) = (v'.fs.heap p).svI := by
  rw [← h.ino_eq]
  exact (h.table ht).inode_eq (by rw [h.vnodes]; exact hp)

end Local

/-- What a change at one vnode must keep for `Core` to survive it. -/
theorem Core.local (h : Core L v) (hl : Local p v v') (hp : p ∈ v.fs.sfsVnodes)
    (hdisk : ∀ i, L i → v'.disk i.toNat = v.disk i.toNat)
    (htype : (v'.fs.heap p).svI.sfiType = (v.fs.heap p).svI.sfiType)
    (howned : Owned L v')
    (htail : ∀ j, v.nblocks ≤ j → v.fs.sfsFreemap.isset j = true → v'.fs.sfsFreemap.isset j = true)
    (hmeta : ∀ b, v.Meta b → v.isset b = true → v'.isset b = true)
    (hclean : (v'.fs.heap p).svDirty = false → (v.fs.heap p).svDirty = false ∧
      (v.fs.heap p).svI.Agrees (v'.fs.heap p).svI) : Core L v' where
  nbits := by rw [hl.nbits, hl.nblocks_eq]; exact h.nbits
  fits := by rw [hl.nblocks_eq]; exact h.fits
  device := by rw [hl.nblocks_eq, hl.device]; exact h.device
  offsets := by rw [hl.device]; exact h.offsets
  tail j hj hb := by
    rw [hl.nblocks_eq] at hj
    rw [hl.nbits] at hb
    exact htail j hj (h.tail j hj hb)
  metaSet b hb := by
    rw [hl.meta_iff] at hb
    exact hmeta b hb (h.metaSet b hb)
  toOwned := howned
  toTable := hl.table h.toTable
  root := h.root
  type i hi := by
    rw [← h.type i hi]
    by_cases hip : i = v.ino p
    · rw [hip, hl.inode_self h.toTable hp, h.inode_eq hp, htype]
    · rw [hl.inode_eq hip fun _ => hdisk i hi]
  ops q hq := by
    rw [hl.vnodes] at hq
    rw [(hl.counts q).2.2, hl.ino_eq]
    exact h.ops q hq
  nonzero := h.nonzero
  clean q hq hd := by
    rw [hl.vnodes] at hq
    rw [hl.ino_eq, hdisk _ (h.live q hq)]
    by_cases hqp : q = p
    · subst hqp
      obtain ⟨hd', ha⟩ := hclean hd
      exact SfsInode.Agrees.trans (h.clean q hq hd') ha
    · rw [hl.heap q hqp] at hd ⊢
      exact h.clean q hq hd

/-! ## Places and bytes -/

namespace Vol

@[simp] theorem ref_nil (v : Vol) (i : UInt32) (s : Slot) : v.ref i s [] = (v.inode i).root s := rfl

theorem ref_snoc (v : Vol) (i : UInt32) (s : Slot) (l : Path) (j : Fin 128) :
    v.ref i s (l ++ [j]) =
      if v.ref i s l = 0 then 0 else (v.disk (v.ref i s l).toNat).word j :=
  v.forest.at_snoc (i, s) l j

theorem ref_ne_zero_of_append {s : Slot} {l m : Path} (h : v.ref i s (l ++ m) ≠ 0) :
    v.ref i s l ≠ 0 :=
  v.forest.at_ne_zero_of_append h

/-- With the same pointers in the inodes and in every pointer block, every
place holds the same block. -/
theorem ref_congr (hroot : ∀ i, L i → ∀ s, (v'.inode i).root s = (v.inode i).root s)
    (hdisk : ∀ i, L i → ∀ s l, l.length < s.depth → v.ref i s l ≠ 0 →
      v'.disk (v.ref i s l).toNat = v.disk (v.ref i s l).toNat)
    (hi : L i) (s : Slot) (l : Path) (hl : l.length ≤ s.depth) : v'.ref i s l = v.ref i s l := by
  refine Forest.at_congr (F := v.forest) (G := v'.forest) (K := fun k => L k.1) ?_ ?_ (i, s) hi l hl
  · intro k hk
    exact hroot k.1 hk k.2
  · intro k hk m hm h0 j
    change (v'.disk (v.ref k.1 k.2 m).toNat).word j = _
    rw [hdisk k.1 hk k.2 m hm h0]
    rfl

theorem fileBlock_of_path {fb : Nat} {s : Slot} {l : Path} (h : fbPath fb = some (s, l))
    (v : Vol) (i : UInt32) : v.fileBlock i fb = v.ref i s l := by
  simp [fileBlock, h]

theorem fileBlock_of_none {fb : Nat} (h : fbPath fb = none) (v : Vol) (i : UInt32) :
    v.fileBlock i fb = 0 := by
  simp [fileBlock, h]

theorem path_of_fileBlock {fb : Nat} (h : v.fileBlock i fb ≠ 0) :
    ∃ s l, fbPath fb = some (s, l) ∧ v.fileBlock i fb = v.ref i s l := by
  cases hf : fbPath fb with
  | none => exact absurd (fileBlock_of_none hf v i) h
  | some k => exact ⟨k.1, k.2, rfl, fileBlock_of_path hf v i⟩

/-- A file block keeps its contents when its data block stays where it is, or
is a zeroed block in the place of a hole. -/
theorem sector_congr {fb : Nat} (h : ∀ s l, fbPath fb = some (s, l) →
      (v'.ref i s l = v.ref i s l ∧
        (v.ref i s l ≠ 0 → v'.disk (v.ref i s l).toNat = v.disk (v.ref i s l).toNat)) ∨
      (v.ref i s l = 0 ∧ v'.disk (v'.ref i s l).toNat = Sector.zero)) :
    v'.sector i fb = v.sector i fb := by
  unfold sector
  cases hf : fbPath fb with
  | none => simp only [fileBlock_of_none hf, if_true]
  | some k =>
    obtain ⟨s, l⟩ := k
    simp only [fileBlock_of_path hf]
    rcases h s l hf with ⟨hr, hd⟩ | ⟨hr, hd⟩
    · rw [hr]
      split
      · rfl
      · next h0 => exact hd h0
    · rw [hd, if_pos hr]
      split <;> rfl

end Vol

/-- A change of places: each block in place was there before, or is an unmarked
block in the one new place. -/
theorem Owned.change {L' : UInt32 → Prop} (h : Owned L v) (hn : v'.nblocks = v.nblocks)
    (i₀ : UInt32) (r₀ : Node)
    (hblk : ∀ i, L' i → ∀ r, Node.Valid r → v'.blk i r ≠ 0 →
      (L i ∧ v'.blk i r = v.blk i r) ∨ (i = i₀ ∧ r = r₀ ∧ v.isset (v'.blk i r) = false ∧
        (v'.blk i r).toNat < v.nblocks ∧ ¬ v.Meta (v'.blk i r)))
    (hset : ∀ i, L' i → ∀ r, Node.Valid r → v'.blk i r ≠ 0 → v'.isset (v'.blk i r) = true) :
    Owned L' v' where
  inj i hi i' hi' r hr r' hr' he h0 := by
    have h0' : v'.blk i' r' ≠ 0 := he ▸ h0
    rcases hblk i hi r hr h0 with ⟨hL, hb⟩ | ⟨rfl, rfl, hu, -⟩
    · rcases hblk i' hi' r' hr' h0' with ⟨hL', hb'⟩ | ⟨rfl, rfl, hu, -⟩
      · rw [hb, hb'] at he
        exact h.inj i hL i' hL' r hr r' hr' he (hb ▸ h0)
      · have hm := h.marked i hL r hr (hb ▸ h0)
        rw [← he, hb, hm] at hu
        cases hu
    · rcases hblk i' hi' r' hr' h0' with ⟨hL', hb'⟩ | ⟨rfl, rfl, -⟩
      · have hm := h.marked i' hL' r' hr' (hb' ▸ h0')
        rw [he, hb', hm] at hu
        cases hu
      · exact ⟨rfl, rfl⟩
  marked := hset
  range i hi r hr h0 := by
    rw [hn, Vol.Meta, hn]
    rcases hblk i hi r hr h0 with ⟨hL, hb⟩ | ⟨-, -, -, hlt, hm⟩
    · rw [hb] at h0 ⊢
      exact h.range i hL r hr h0
    · exact ⟨hlt, hm⟩

/-! ## Elementary changes -/

namespace Vol

def modifyVnode (v : Vol) (p : Ptr) (f : SfsVnode → SfsVnode) : Vol :=
  { v with fs := v.fs.modifyVnode p f }

def setDisk (v : Vol) (b : UInt32) (s : Sector) : Vol :=
  { v with disk := fun x => if x = b.toNat then s else v.disk x }

/-- Take block `c` and clear it. -/
def alloc (v : Vol) (c : UInt32) : Vol where
  fs := { v.fs with sfsFreemap := v.fs.sfsFreemap.mark c.toNat, sfsFreemapdirty := true }
  disk := fun x => if x = c.toNat then Sector.zero else v.disk x

@[simp] theorem heap_modifyVnode (v : Vol) (p q : Ptr) (f : SfsVnode → SfsVnode) :
    (v.modifyVnode p f).fs.heap q = if q = p then f (v.fs.heap p) else v.fs.heap q := rfl
@[simp] theorem disk_modifyVnode (v : Vol) (p : Ptr) (f : SfsVnode → SfsVnode) :
    (v.modifyVnode p f).disk = v.disk := rfl
@[simp] theorem freemap_modifyVnode (v : Vol) (p : Ptr) (f : SfsVnode → SfsVnode) :
    (v.modifyVnode p f).fs.sfsFreemap = v.fs.sfsFreemap := rfl
@[simp] theorem isset_modifyVnode (v : Vol) (p : Ptr) (f : SfsVnode → SfsVnode) (b : UInt32) :
    (v.modifyVnode p f).isset b = v.isset b := rfl

@[simp] theorem fs_setDisk (v : Vol) (b : UInt32) (s : Sector) : (v.setDisk b s).fs = v.fs := rfl
@[simp] theorem isset_setDisk (v : Vol) (b c : UInt32) (s : Sector) :
    (v.setDisk b s).isset c = v.isset c := rfl
theorem disk_setDisk (v : Vol) (b c : UInt32) (s : Sector) :
    (v.setDisk b s).disk c.toNat = if c = b then s else v.disk c.toNat := by
  simp only [setDisk, UInt32.toNat_inj]

@[simp] theorem heap_alloc (v : Vol) (c : UInt32) : (v.alloc c).fs.heap = v.fs.heap := rfl
theorem disk_alloc (v : Vol) (b c : UInt32) :
    (v.alloc c).disk b.toNat = if b = c then Sector.zero else v.disk b.toNat := by
  simp only [alloc, UInt32.toNat_inj]
@[simp] theorem isset_alloc (v : Vol) (b c : UInt32) :
    (v.alloc c).isset b = (v.isset b || decide (b = c)) := by
  simp [isset, alloc, UInt32.toNat_inj]

end Vol

theorem Local.modifyVnode (v : Vol) (p : Ptr) {f : SfsVnode → SfsVnode}
    (h : ∀ n, f n = { n with svI := (f n).svI, svDirty := (f n).svDirty }) :
    Local p v (v.modifyVnode p f) := by
  have hf := h (v.fs.heap p)
  refine ⟨rfl, fun q hq => by simp [hq], ?_, ?_, ?_, ?_, rfl, rfl, rfl, rfl, rfl⟩
  all_goals
    simp only [heap_modifyVnode, if_true]
    rw [hf]

theorem Local.setDisk (v : Vol) (p : Ptr) (b : UInt32) (s : Sector) :
    Local p v (v.setDisk b s) := by
  constructor <;> intros <;> rfl

theorem Local.alloc (v : Vol) (p : Ptr) (c : UInt32) : Local p v (v.alloc c) := by
  constructor <;> intros <;> rfl

/-- A block `sfs_balloc` may hand out. -/
structure Fresh (v : Vol) (c : UInt32) : Prop where
  clear : v.isset c = false
  lt : c.toNat < v.nblocks

namespace Fresh

variable {c : UInt32}

theorem not_meta (hc : Fresh v c) (h : Geo v) : ¬ v.Meta c := by
  intro hm
  have := h.metaSet c hm
  rw [hc.clear] at this
  cases this

theorem ne_zero (hc : Fresh v c) (h : Geo v) : c ≠ 0 := by
  intro hx
  obtain rfl := hx
  exact hc.not_meta h (.inl rfl)

theorem ne_blk (hc : Fresh v c) (h : Owned L v) (hi : L i) {r : Node} (hr : r.Valid)
    (h0 : v.blk i r ≠ 0) : v.blk i r ≠ c := by
  intro he
  have := h.marked i hi r hr h0
  rw [he, hc.clear] at this
  cases this

theorem ne_ino (hc : Fresh v c) (h : Core L v) (hi : L i) : i ≠ c :=
  hc.ne_blk h.toOwned hi (r := .self) trivial (h.nonzero i hi)

theorem ne_ref (hc : Fresh v c) (h : Core L v) (hi : L i) {s : Slot} {l : Path}
    (hl : l.length ≤ s.depth) (h0 : v.ref i s l ≠ 0) : v.ref i s l ≠ c :=
  hc.ne_blk h.toOwned hi (r := .node s l) hl h0

end Fresh

/-- The block at a place is no inode. -/
theorem Core.ref_ne_ino (h : Core L v) {i i' : UInt32} (hi : L i) (hi' : L i') {s : Slot} {l : Path}
    (hl : l.length ≤ s.depth) (h0 : v.ref i s l ≠ 0) : v.ref i s l ≠ i' := by
  intro he
  have := (h.inj i hi i' hi' (.node s l) hl .self trivial he h0).2
  cases this

/-- Different places hold different blocks. -/
theorem Core.ref_inj (h : Core L v) {i i' : UInt32} (hi : L i) (hi' : L i') {s s' : Slot}
    {l l' : Path} (hl : l.length ≤ s.depth) (hl' : l'.length ≤ s'.depth)
    (he : v.ref i s l = v.ref i' s' l') (h0 : v.ref i s l ≠ 0) : i = i' ∧ s = s' ∧ l = l' := by
  obtain ⟨h1, h2⟩ := h.inj i hi i' hi' (.node s l) hl (.node s' l') hl' he h0
  obtain ⟨rfl, rfl⟩ := Node.node.inj h2
  exact ⟨h1, rfl, rfl⟩

/-! ## Growth of one file -/

/-- Size, type and link count stay. -/
structure SameAttrs (m n : SfsInode) : Prop where
  size : n.sfiSize = m.sfiSize
  type : n.sfiType = m.sfiType
  linkcount : n.sfiLinkcount = m.sfiLinkcount

/-- Whatever happens to the file loaded in `p`, every other file stays as it
is. -/
structure Confined (L : UInt32 → Prop) (p : Ptr) (v v' : Vol) : Prop where
  here : Local p v v'
  core : Core L v'
  inode : ∀ i, L i → i ≠ v.ino p → v'.inode i = v.inode i
  ref : ∀ i, L i → i ≠ v.ino p → ∀ s l, l.length ≤ s.depth → v'.ref i s l = v.ref i s l
  sector : ∀ i, L i → i ≠ v.ino p → ∀ fb, v'.sector i fb = v.sector i fb
  onDisk : ∀ i, L i → v'.disk i.toNat = v.disk i.toNat

theorem Confined.refl (h : Core L v) (p : Ptr) : Confined L p v v :=
  ⟨.refl p v, h, fun _ _ _ => rfl, fun _ _ _ _ _ _ => rfl, fun _ _ _ _ => rfl, fun _ _ => rfl⟩

theorem Confined.trans {a b c : Vol} (h : Confined L p a b) (h' : Confined L p b c) :
    Confined L p a c where
  here := h.here.trans h'.here
  core := h'.core
  inode i hi hn := (h'.inode i hi (by rwa [h.here.ino_eq])).trans (h.inode i hi hn)
  ref i hi hn s l hl := (h'.ref i hi (by rwa [h.here.ino_eq]) s l hl).trans (h.ref i hi hn s l hl)
  sector i hi hn fb := (h'.sector i hi (by rwa [h.here.ino_eq]) fb).trans (h.sector i hi hn fb)
  onDisk i hi := (h'.onDisk i hi).trans (h.onDisk i hi)

/-- The file loaded in `p` may have got blocks and new contents. -/
structure Grown (L : UInt32 → Prop) (p : Ptr) (v v' : Vol) : Prop extends Confined L p v v' where
  keep : ∀ s l, l.length ≤ s.depth → v.ref (v.ino p) s l ≠ 0 →
    v'.ref (v.ino p) s l = v.ref (v.ino p) s l
  marked : ∀ b, v.isset b = true → v'.isset b = true
  dirty : (v.fs.heap p).svDirty = true → (v'.fs.heap p).svDirty = true
  attrs : SameAttrs (v.fs.heap p).svI (v'.fs.heap p).svI

namespace Grown

theorem refl (h : Core L v) (p : Ptr) : Grown L p v v :=
  ⟨.refl h p, fun _ _ _ _ => rfl, fun _ => id, id, ⟨rfl, rfl, rfl⟩⟩

theorem trans {a b c : Vol} (h : Grown L p a b) (h' : Grown L p b c) : Grown L p a c where
  toConfined := h.toConfined.trans h'.toConfined
  keep s l hl h0 := by
    have h1 := h.keep s l hl h0
    have h2 := h'.keep s l hl (by rw [h.here.ino_eq, h1]; exact h0)
    rw [h.here.ino_eq] at h2
    exact h2.trans h1
  marked b hb := h'.marked b (h.marked b hb)
  dirty hd := h'.dirty (h.dirty hd)
  attrs := ⟨h'.attrs.size.trans h.attrs.size, h'.attrs.type.trans h.attrs.type,
    h'.attrs.linkcount.trans h.attrs.linkcount⟩

/-- Taking a fresh block, with at most one new place for it, changes no
contents. -/
theorem of_alloc {c : UInt32} (h : Core L v) (hp : p ∈ v.fs.sfsVnodes) (hc : Fresh v c)
    (hl : Local p v v') (s₀ : Slot) (l₀ : Path)
    (href : ∀ i, L i → ∀ s l, l.length ≤ s.depth → v'.ref i s l = v.ref i s l ∨
      i = v.ino p ∧ s = s₀ ∧ l = l₀ ∧ v.ref i s l = 0 ∧ v'.ref i s l = c)
    (hzero : v'.disk c.toNat = Sector.zero)
    (hdisk : ∀ b, b ≠ c → (∀ s l, l.length < s.depth → v.ref (v.ino p) s l ≠ 0 →
      b ≠ v.ref (v.ino p) s l) → v'.disk b.toNat = v.disk b.toNat)
    (hmap : v'.fs.sfsFreemap = v.fs.sfsFreemap.mark c.toNat)
    (hattrs : SameAttrs (v.fs.heap p).svI (v'.fs.heap p).svI)
    (hdirty : (v.fs.heap p).svDirty = true → (v'.fs.heap p).svDirty = true)
    (hclean : (v'.fs.heap p).svDirty = false →
      (v.fs.heap p).svI.Agrees (v'.fs.heap p).svI) :
    Grown L p v v' ∧ ∀ i, L i → ∀ fb, v'.sector i fb = v.sector i fb := by
  have hLp : L (v.ino p) := h.live p hp
  have hset (b : UInt32) : v'.isset b = (v.isset b || decide (b = c)) := by
    simp [isset, hmap, UInt32.toNat_inj]
  have hmarked (b : UInt32) (hb : v.isset b = true) : v'.isset b = true := by simp [hset, hb]
  have hino (i : UInt32) (hi : L i) : v'.disk i.toNat = v.disk i.toNat :=
    hdisk i (hc.ne_ino h hi) fun s l hs h0 he =>
      h.ref_ne_ino hLp hi (Nat.le_of_lt hs) h0 he.symm
  have hdata (i : UInt32) (hi : L i) (s : Slot) (l : Path) (hs : l.length = s.depth)
      (h0 : v.ref i s l ≠ 0) : v'.disk (v.ref i s l).toNat = v.disk (v.ref i s l).toNat := by
    refine hdisk _ (hc.ne_ref h hi (Nat.le_of_eq hs) h0) fun s' l' hs' h0' he => ?_
    obtain ⟨-, rfl, rfl⟩ := h.ref_inj hi hLp (Nat.le_of_eq hs) (Nat.le_of_lt hs') he h0
    omega
  have hsector (i : UInt32) (hi : L i) (fb : Nat) : v'.sector i fb = v.sector i fb := by
    apply Vol.sector_congr
    intro s l hf
    have hs := fbPath_length hf
    rcases href i hi s l (Nat.le_of_eq hs) with hr | ⟨-, -, -, hr, hr'⟩
    · exact .inl ⟨hr, hdata i hi s l hs⟩
    · exact .inr ⟨hr, by rw [hr', hzero]⟩
  have howned : Owned L v' := by
    refine h.toOwned.change hl.nblocks_eq (v.ino p) (.node s₀ l₀) ?_ ?_
    · intro i hi r hr h0
      cases r with
      | self => exact .inl ⟨hi, rfl⟩
      | node s l =>
        rcases href i hi s l hr with hr' | ⟨rfl, rfl, rfl, -, hr'⟩
        · exact .inl ⟨hi, hr'⟩
        · have he : v'.blk (v.ino p) (.node s l) = c := hr'
          rw [he]
          exact .inr ⟨rfl, rfl, hc.clear, hc.lt, hc.not_meta h.toGeo⟩
    · intro i hi r hr h0
      cases r with
      | self => exact hmarked i (h.marked i hi .self trivial h0)
      | node s l =>
        change v'.ref i s l ≠ 0 at h0
        change v'.isset (v'.ref i s l) = true
        rcases href i hi s l hr with hr' | ⟨-, -, -, -, hr'⟩
        · rw [hr'] at h0 ⊢
          exact hmarked _ (h.marked i hi (.node s l) hr h0)
        · simp [hr', hset]
  refine ⟨⟨⟨hl, ?_, ?_, ?_, fun i hi _ => hsector i hi, hino⟩, ?_, hmarked, hdirty, hattrs⟩,
    hsector⟩
  · refine h.local hl hp hino hattrs.type howned ?_ ?_ ?_
    · intro j _ hj
      rw [hmap, Bitmap.isset_mark, hj, Bool.true_or]
    · intro b _ hb
      exact hmarked b hb
    · intro hd
      refine ⟨?_, hclean hd⟩
      cases hb : (v.fs.heap p).svDirty with
      | false => rfl
      | true => rw [hdirty hb] at hd; cases hd
  · exact fun i hi hn => hl.inode_eq hn fun _ => hino i hi
  · intro i hi hn s l hs
    rcases href i hi s l hs with hr | ⟨he, -⟩
    · exact hr
    · exact absurd he hn
  · intro s l hs h0
    rcases href _ hLp s l hs with hr | ⟨-, -, -, hr, -⟩
    · exact hr
    · exact absurd hr h0

end Grown

namespace Vol

/-- Block `c` becomes the root `s` of the file in `p`. -/
def plant (v : Vol) (p : Ptr) (s : Slot) (c : UInt32) : Vol :=
  (v.alloc c).modifyVnode p fun n => { n with
    svI := { n.svI with sfiBlocks := n.svI.sfiBlocks + 1 }.setRoot s c, svDirty := true }

/-- A sector with word `j` replaced. -/
def setWord (s : Sector) (j : Fin 128) (c : UInt32) : Sector :=
  Sector.ofWords fun j' => if j' = j then c else s.word j'

/-- Block `c` becomes child `j` of the pointer block `b` of the file in `p`; the
vnode is not marked dirty. -/
def graft (v : Vol) (p : Ptr) (b : UInt32) (j : Fin 128) (c : UInt32) : Vol :=
  ((v.alloc c).modifyVnode p fun n => { n with
    svI := { n.svI with sfiBlocks := n.svI.sfiBlocks + 1 } }).setDisk b
      (setWord (v.disk b.toNat) j c)

/-- Block `c` is charged to the file in `p` but no place holds it. -/
def leak (v : Vol) (p : Ptr) (c : UInt32) : Vol :=
  (v.alloc c).modifyVnode p fun n => { n with
    svI := { n.svI with sfiBlocks := n.svI.sfiBlocks + 1 }, svDirty := true }

end Vol

theorem Local.plant (v : Vol) (p : Ptr) (s : Slot) (c : UInt32) : Local p v (v.plant p s c) :=
  (Local.alloc v p c).trans (Local.modifyVnode _ p fun _ => rfl)

theorem Local.graft (v : Vol) (p : Ptr) (b : UInt32) (j : Fin 128) (c : UInt32) :
    Local p v (v.graft p b j c) :=
  ((Local.alloc v p c).trans (Local.modifyVnode _ p fun _ => rfl)).trans (Local.setDisk _ p _ _)

theorem Local.leak (v : Vol) (p : Ptr) (c : UInt32) : Local p v (v.leak p c) :=
  (Local.alloc v p c).trans (Local.modifyVnode _ p fun _ => rfl)

theorem graft_disk {b c : UInt32} {j : Fin 128} (x : UInt32) :
    (v.graft p b j c).disk x.toNat =
      if x = b then setWord (v.disk b.toNat) j c
      else if x = c then Sector.zero else v.disk x.toNat := by
  rw [Vol.graft, disk_setDisk, disk_modifyVnode, disk_alloc]

section Growth

variable (h : Core L v) (hp : p ∈ v.fs.sfsVnodes) {c : UInt32} (hc : Fresh v c)
include h hp hc

theorem plant_root {s : Slot} (hi : L i) (t : Slot) :
    ((v.plant p s c).inode i).root t =
      if i = v.ino p ∧ t = s then c else (v.inode i).root t := by
  have hl := Local.plant v p s c
  by_cases hip : i = v.ino p
  · subst hip
    rw [hl.inode_self h.toTable hp, h.inode_eq hp]
    simp only [plant, heap_modifyVnode, if_true, heap_alloc, SfsInode.root_setRoot, true_and]
    cases t <;> rfl
  · have hd : (v.plant p s c).disk i.toNat = v.disk i.toNat := by
      simp [plant, disk_alloc, hc.ne_ino h hi]
    rw [hl.inode_eq hip fun _ => hd, if_neg (by simp [hip])]

theorem plant_ref {s : Slot} (hr : (v.fs.heap p).svI.root s = 0) (hi : L i) (t : Slot) (l : Path)
    (hl : l.length ≤ t.depth) : (v.plant p s c).ref i t l =
      if i = v.ino p ∧ t = s ∧ l = [] then c else v.ref i t l := by
  have hr' : v.forest.root (v.ino p, s) = 0 := by
    change (v.inode (v.ino p)).root s = 0
    rw [h.inode_eq hp, hr]
  have hi' := h.live p hp
  have := Forest.at_plant (F := v.forest) (G := (v.plant p s c).forest) (K := fun k => L k.1)
    (r := (v.ino p, s)) (c := c) hr' ?_ ?_ ?_ ?_ (i, t) hi l hl
  · simpa [Vol.ref, Prod.ext_iff, and_assoc] using this
  · have := plant_root h hp hc (s := s) hi' s
    rw [if_pos ⟨rfl, rfl⟩] at this
    exact this
  · intro k hk hne
    have := plant_root h hp hc (s := s) hk k.2
    rw [if_neg (by rintro ⟨h1, h2⟩; exact hne (Prod.ext h1 h2))] at this
    exact this
  · intro _ j
    change ((v.plant p s c).disk c.toNat).word j = 0
    simp [plant, disk_alloc]
  · intro k hk m hm h0 j
    change ((v.plant p s c).disk (v.ref k.1 k.2 m).toNat).word j = _
    have hne := hc.ne_ref h hk (Nat.le_of_lt hm) h0
    simp only [plant, disk_modifyVnode, disk_alloc, if_neg hne]
    rfl

theorem Grown.plant {s : Slot} (hr : (v.fs.heap p).svI.root s = 0) :
    Grown L p v (v.plant p s c) ∧
      ∀ i, L i → ∀ fb, (v.plant p s c).sector i fb = v.sector i fb := by
  refine Grown.of_alloc h hp hc (.plant v p s c) s [] ?_ ?_ ?_ rfl ⟨?_, ?_, ?_⟩ ?_ ?_
  · intro i hi t l hl
    rw [plant_ref h hp hc hr hi t l hl]
    split
    · next he =>
      obtain ⟨rfl, rfl, rfl⟩ := he
      refine .inr ⟨rfl, rfl, rfl, ?_, rfl⟩
      rw [ref_nil, h.inode_eq hp, hr]
    · exact .inl rfl
  · simp [Vol.plant, disk_alloc]
  · intro b hb _
    simp [Vol.plant, disk_alloc, hb]
  · simp [Vol.plant]
  · simp [Vol.plant]
  · simp [Vol.plant]
  · simp [Vol.plant]
  · simp [Vol.plant]

theorem leak_ref (hi : L i) (t : Slot) (l : Path) (hl : l.length ≤ t.depth) :
    (v.leak p c).ref i t l = v.ref i t l := by
  have hloc := Local.leak v p c
  refine Vol.ref_congr (L := L) ?_ ?_ hi t l hl
  · intro i hi s
    by_cases hip : i = v.ino p
    · subst hip
      rw [hloc.inode_self h.toTable hp, h.inode_eq hp]
      simp only [Vol.leak, heap_modifyVnode, if_true, heap_alloc]
      cases s <;> rfl
    · have hd : (v.leak p c).disk i.toNat = v.disk i.toNat := by
        simp [Vol.leak, disk_alloc, hc.ne_ino h hi]
      rw [hloc.inode_eq hip fun _ => hd]
  · intro i hi s m hm h0
    simp [Vol.leak, disk_alloc, hc.ne_ref h hi (Nat.le_of_lt hm) h0]

theorem Grown.leak : Grown L p v (v.leak p c) ∧
      ∀ i, L i → ∀ fb, (v.leak p c).sector i fb = v.sector i fb := by
  refine Grown.of_alloc h hp hc (.leak v p c) .indirect [] ?_ ?_ ?_ rfl ⟨?_, ?_, ?_⟩ ?_ ?_
  · intro i hi t l hl
    exact .inl (leak_ref h hp hc hi t l hl)
  · simp [Vol.leak, disk_alloc]
  · intro b hb _
    simp [Vol.leak, disk_alloc, hb]
  · simp [Vol.leak]
  · simp [Vol.leak]
  · simp [Vol.leak]
  · simp [Vol.leak]
  · simp [Vol.leak]

theorem graft_ref {s : Slot} {l : Path} {j : Fin 128} (hl : l.length < s.depth)
    (h0 : v.ref (v.ino p) s l ≠ 0) (hm : (v.disk (v.ref (v.ino p) s l).toNat).word j = 0)
    (hi : L i) (t : Slot) (m : Path) (ht : m.length ≤ t.depth) :
    (v.graft p (v.ref (v.ino p) s l) j c).ref i t m =
      if i = v.ino p ∧ t = s ∧ m = l ++ [j] then c else v.ref i t m := by
  have hi' := h.live p hp
  have hb := hc.ne_ref h hi' (Nat.le_of_lt hl) h0
  have hloc := Local.graft v p (v.ref (v.ino p) s l) j c
  have := Forest.at_graft (F := v.forest) (G := (v.graft p (v.ref (v.ino p) s l) j c).forest)
    (K := fun k => L k.1) (r := (v.ino p, s)) (s := l) (n := j) (c := c) ?_ h0 hm ?_ ?_ ?_
    (i, t) hi m ht
  · simpa [Vol.ref, Prod.ext_iff, and_assoc] using this
  · intro k hk
    change ((v.graft p (v.ref (v.ino p) s l) j c).inode k.1).root k.2 = (v.inode k.1).root k.2
    by_cases hip : k.1 = v.ino p
    · rw [hip, hloc.inode_self h.toTable hp, h.inode_eq hp]
      simp only [Vol.graft, fs_setDisk, heap_modifyVnode, if_true, heap_alloc]
      cases k.2 <;> rfl
    · have hd : (v.graft p (v.ref (v.ino p) s l) j c).disk k.1.toNat = v.disk k.1.toNat := by
        rw [graft_disk, if_neg (h.ref_ne_ino hi' hk (Nat.le_of_lt hl) h0).symm,
          if_neg (hc.ne_ino h hk)]
      rw [hloc.inode_eq hip fun _ => hd]
  · change ((v.graft p (v.ref (v.ino p) s l) j c).disk (v.ref (v.ino p) s l).toNat).word j = c
    rw [graft_disk, if_pos rfl, setWord, Sector.word_ofWords, if_pos rfl]
  · intro _ j'
    change ((v.graft p (v.ref (v.ino p) s l) j c).disk c.toNat).word j' = 0
    rw [graft_disk, if_neg hb.symm, if_pos rfl, Sector.word_zero]
  · intro k hk q hq hq0 j' hne
    change ((v.graft p (v.ref (v.ino p) s l) j c).disk (v.ref k.1 k.2 q).toNat).word j' = _
    rw [graft_disk]
    by_cases he : v.ref k.1 k.2 q = v.ref (v.ino p) s l
    · -- another child of the same block
      obtain ⟨h1, h2, rfl⟩ := h.ref_inj hk hi' (Nat.le_of_lt hq) (Nat.le_of_lt hl) he hq0
      rw [if_pos he, setWord, Sector.word_ofWords,
        if_neg fun hj => hne ⟨Prod.ext h1 h2, rfl, hj⟩, ← he]
      rfl
    · rw [if_neg he, if_neg (hc.ne_ref h hk (Nat.le_of_lt hq) hq0)]
      rfl

theorem Grown.graft {s : Slot} {l : Path} {j : Fin 128} (hl : l.length < s.depth)
    (h0 : v.ref (v.ino p) s l ≠ 0) (hm : (v.disk (v.ref (v.ino p) s l).toNat).word j = 0) :
    Grown L p v (v.graft p (v.ref (v.ino p) s l) j c) ∧
      ∀ i, L i → ∀ fb, (v.graft p (v.ref (v.ino p) s l) j c).sector i fb = v.sector i fb := by
  have hi' := h.live p hp
  have hb := hc.ne_ref h hi' (Nat.le_of_lt hl) h0
  refine Grown.of_alloc h hp hc (.graft v p _ j c) s (l ++ [j]) ?_ ?_ ?_ rfl ⟨?_, ?_, ?_⟩ ?_ ?_
  · intro i hi t m ht
    rw [graft_ref h hp hc hl h0 hm hi t m ht]
    split
    · next he =>
      obtain ⟨rfl, rfl, rfl⟩ := he
      exact .inr ⟨rfl, rfl, rfl, by rw [ref_snoc, if_neg h0, hm], rfl⟩
    · exact .inl rfl
  · rw [graft_disk, if_neg hb.symm, if_pos rfl]
  · intro b hbc hbl
    rw [graft_disk, if_neg (hbl s l hl h0), if_neg hbc]
  · simp [Vol.graft]
  · simp [Vol.graft]
  · simp [Vol.graft]
  · simp [Vol.graft]
  · intro _
    simp only [Vol.graft, fs_setDisk, heap_modifyVnode, if_true, heap_alloc]
    rfl

end Growth

/-- New contents for a data block. -/
theorem Grown.put (h : Core L v) (hp : p ∈ v.fs.sfsVnodes) {fb : Nat} (s : Sector)
    (h0 : v.fileBlock (v.ino p) fb ≠ 0) :
    Grown L p v (v.setDisk (v.fileBlock (v.ino p) fb) s) ∧
      (∀ i, L i → ∀ t m, m.length ≤ t.depth →
        (v.setDisk (v.fileBlock (v.ino p) fb) s).ref i t m = v.ref i t m) ∧
      ∀ fb', (v.setDisk (v.fileBlock (v.ino p) fb) s).sector (v.ino p) fb' =
        if fb' = fb then s else v.sector (v.ino p) fb' := by
  obtain ⟨t₀, l₀, hf, hb⟩ := path_of_fileBlock h0
  have hlen := fbPath_length hf
  have hLp := h.live p hp
  rw [hb] at h0 ⊢
  set b := v.ref (v.ino p) t₀ l₀ with hbdef
  have hl := Local.setDisk v p b s
  have hino (i : UInt32) (hi : L i) : (v.setDisk b s).disk i.toNat = v.disk i.toNat := by
    rw [disk_setDisk, if_neg (h.ref_ne_ino hLp hi (Nat.le_of_eq hlen) h0).symm]
  -- the block of another place is another block
  have hother (i : UInt32) (hi : L i) (t : Slot) (m : Path) (hm : m.length ≤ t.depth)
      (h1 : v.ref i t m ≠ 0) (hne : ¬ (i = v.ino p ∧ t = t₀ ∧ m = l₀)) :
      (v.setDisk b s).disk (v.ref i t m).toNat = v.disk (v.ref i t m).toNat := by
    rw [disk_setDisk, if_neg]
    intro he
    exact hne (h.ref_inj hi hLp hm (Nat.le_of_eq hlen) he h1)
  have hinode (i : UInt32) (hi : L i) : (v.setDisk b s).inode i = v.inode i := by
    by_cases hip : i = v.ino p
    · rw [hip, hl.inode_self h.toTable hp, h.inode_eq hp]
      rfl
    · exact hl.inode_eq hip fun _ => hino i hi
  have href (i : UInt32) (hi : L i) (t : Slot) (m : Path) (hm : m.length ≤ t.depth) :
      (v.setDisk b s).ref i t m = v.ref i t m := by
    refine Vol.ref_congr (L := L) (fun i hi t => by rw [hinode i hi]) ?_ hi t m hm
    intro i hi t m hm h1
    refine hother i hi t m (Nat.le_of_lt hm) h1 ?_
    intro hx
    obtain ⟨-, rfl, rfl⟩ := hx
    omega
  have howned : Owned L (v.setDisk b s) := by
    refine h.toOwned.change hl.nblocks_eq 0 .self ?_ ?_
    · intro i hi r hr h1
      cases r with
      | self => exact .inl ⟨hi, rfl⟩
      | node t m => exact .inl ⟨hi, href i hi t m hr⟩
    · intro i hi r hr h1
      cases r with
      | self => exact h.marked i hi .self trivial h1
      | node t m =>
        change (v.setDisk b s).ref i t m ≠ 0 at h1
        change v.isset ((v.setDisk b s).ref i t m) = true
        rw [href i hi t m hr] at h1 ⊢
        exact h.marked i hi (.node t m) hr h1
  refine ⟨⟨⟨hl, ?_, ?_, fun i hi _ => href i hi, ?_, hino⟩, fun t m hm _ => href _ hLp t m hm,
    fun _ => id, id, ⟨rfl, rfl, rfl⟩⟩, href, ?_⟩
  · exact h.local hl hp hino rfl howned (fun _ _ => id) (fun _ _ => id)
      fun hd => ⟨hd, SfsInode.Agrees.refl _⟩
  · exact fun i hi _ => hinode i hi
  · intro i hi hn fb'
    apply Vol.sector_congr
    intro t m hm
    have hml := Nat.le_of_eq (fbPath_length hm)
    exact .inl ⟨href i hi t m hml, fun h1 => hother i hi t m hml h1 fun he => hn he.1⟩
  · intro fb'
    split
    · next he =>
      subst he
      rw [Vol.sector, fileBlock_of_path hf, href _ hLp _ _ (Nat.le_of_eq hlen), if_neg h0,
        disk_setDisk, if_pos rfl]
    · next hne =>
      apply Vol.sector_congr
      intro t m hm
      have hml := Nat.le_of_eq (fbPath_length hm)
      refine .inl ⟨href _ hLp t m hml, fun h1 => hother _ hLp t m hml h1 ?_⟩
      intro hx
      obtain ⟨-, rfl, rfl⟩ := hx
      exact hne (fbPath_inj hm hf)

/-! ## Attributes -/

/-- Change the inode in `p` and mark it dirty. -/
def Vol.touch (v : Vol) (p : Ptr) (f : SfsInode → SfsInode) : Vol :=
  v.modifyVnode p fun n => { n with svI := f n.svI, svDirty := true }

/-- Changing size, link count or block count leaves all places and contents. -/
structure Touched (L : UInt32 → Prop) (p : Ptr) (v v' : Vol) : Prop extends Confined L p v v' where
  places : ∀ i, L i → ∀ s l, l.length ≤ s.depth → v'.ref i s l = v.ref i s l
  same : ∀ i, L i → ∀ fb, v'.sector i fb = v.sector i fb
  dirty : (v'.fs.heap p).svDirty = true
  disk : v'.disk = v.disk
  freemap : v'.fs.sfsFreemap = v.fs.sfsFreemap
  mapdirty : v'.fs.sfsFreemapdirty = v.fs.sfsFreemapdirty

theorem Vol.touched (h : Core L v) (hp : p ∈ v.fs.sfsVnodes) {f : SfsInode → SfsInode}
    (hroot : ∀ n s, (f n).root s = n.root s) (htype : ∀ n, (f n).sfiType = n.sfiType) :
    Touched L p v (v.touch p f) := by
  have hl : Local p v (v.touch p f) := Local.modifyVnode v p fun _ => rfl
  have hself : (v.touch p f).inode (v.ino p) = f (v.fs.heap p).svI := by
    rw [hl.inode_self h.toTable hp]
    simp [touch]
  have hroots (i : UInt32) (s : Slot) : ((v.touch p f).inode i).root s = (v.inode i).root s := by
    by_cases hip : i = v.ino p
    · rw [hip, hself, hroot, h.inode_eq hp]
    · rw [hl.inode_eq hip fun _ => rfl]
  have href (i : UInt32) (hi : L i) (s : Slot) (l : Path) (hl : l.length ≤ s.depth) :
      (v.touch p f).ref i s l = v.ref i s l :=
    Vol.ref_congr (L := L) (fun i _ s => hroots i s) (fun _ _ _ _ _ _ => rfl) hi s l hl
  have hsec (i : UInt32) (hi : L i) (fb : Nat) : (v.touch p f).sector i fb = v.sector i fb := by
    apply Vol.sector_congr
    intro s l hf
    exact .inl ⟨href i hi s l (Nat.le_of_eq (fbPath_length hf)), fun _ => rfl⟩
  have howned : Owned L (v.touch p f) := by
    refine h.toOwned.change hl.nblocks_eq 0 .self ?_ ?_
    · intro i hi r hr h1
      cases r with
      | self => exact .inl ⟨hi, rfl⟩
      | node t m => exact .inl ⟨hi, href i hi t m hr⟩
    · intro i hi r hr h1
      cases r with
      | self => exact h.marked i hi .self trivial h1
      | node t m =>
        change (v.touch p f).ref i t m ≠ 0 at h1
        change v.isset ((v.touch p f).ref i t m) = true
        rw [href i hi t m hr] at h1 ⊢
        exact h.marked i hi (.node t m) hr h1
  have hcore : Core L (v.touch p f) := by
    refine h.local hl hp (fun _ _ => rfl) ?_ howned (fun _ _ => id) (fun _ _ => id) ?_
    · simp [touch, htype]
    · simp [touch]
  refine ⟨⟨hl, hcore, fun i _ hn => hl.inode_eq hn fun _ => rfl, fun i hi _ => href i hi,
    fun i hi _ => hsec i hi, fun _ _ => rfl⟩, href, hsec, ?_, rfl, rfl, rfl⟩
  simp [touch]

/-! ## Steps on one file -/

/-- What a run may do to a file: allocate and write; take blocks without a
place for them; change a pointer block while the vnode is clean. -/
structure Perm where
  alloc : Prop
  leak : Prop
  quiet : Prop

inductive FileStep (π : Perm) (p : Ptr) : Vol → Vol → Prop
  | plant {v : Vol} {s : Slot} {c : UInt32} (ha : π.alloc) (hc : Fresh v c)
      (hr : (v.fs.heap p).svI.root s = 0) : FileStep π p v (v.plant p s c)
  | graft {v : Vol} {s : Slot} {l : Path} {j : Fin 128} {c : UInt32} (ha : π.alloc)
      (hq : (v.fs.heap p).svDirty = true ∨ π.quiet) (hc : Fresh v c) (hl : l.length < s.depth)
      (h0 : v.ref (v.ino p) s l ≠ 0) (hm : (v.disk (v.ref (v.ino p) s l).toNat).word j = 0) :
      FileStep π p v (v.graft p (v.ref (v.ino p) s l) j c)
  | leak {v : Vol} {c : UInt32} (hk : π.leak) (hc : Fresh v c) : FileStep π p v (v.leak p c)
  | put {v : Vol} {fb : Nat} {s : Sector} (ha : π.alloc) (h0 : v.fileBlock (v.ino p) fb ≠ 0) :
      FileStep π p v (v.setDisk (v.fileBlock (v.ino p) fb) s)

abbrev FileSteps (π : Perm) (p : Ptr) : Vol → Vol → Prop :=
  Relation.ReflTransGen (FileStep π p)

theorem FileStep.grown {π : Perm} (h : Core L v) (hp : p ∈ v.fs.sfsVnodes)
    (hs : FileStep π p v v') : Grown L p v v' := by
  cases hs with
  | plant ha hc hr => exact (Grown.plant h hp hc hr).1
  | graft ha hq hc hl h0 hm => exact (Grown.graft h hp hc hl h0 hm).1
  | leak hk hc => exact (Grown.leak h hp hc).1
  | put ha h0 => exact (Grown.put h hp _ h0).1

theorem FileSteps.grown {π : Perm} (h : Core L v) (hp : p ∈ v.fs.sfsVnodes)
    (hs : FileSteps π p v v') : Grown L p v v' := by
  induction hs with
  | refl => exact .refl h p
  | tail _ hs ih => exact ih.trans (hs.grown ih.core (by rw [ih.here.vnodes]; exact hp))

theorem FileStep.mono {π ρ : Perm} (ha : π.alloc → ρ.alloc) (hk : π.leak → ρ.leak)
    (hq : π.quiet → ρ.quiet) (hs : FileStep π p v v') : FileStep ρ p v v' := by
  cases hs with
  | plant ha' hc hr => exact .plant (ha ha') hc hr
  | graft ha' hq' hc hl h0 hm => exact .graft (ha ha') (hq'.imp_right hq) hc hl h0 hm
  | leak hk' hc => exact .leak (hk hk') hc
  | put ha' h0 => exact .put (ha ha') h0

/-- Without permission nothing happens. -/
theorem FileSteps.eq {π : Perm} (ha : ¬ π.alloc) (hk : ¬ π.leak) (hs : FileSteps π p v v') :
    v' = v := by
  induction hs with
  | refl => rfl
  | tail _ hs ih =>
    cases hs with
    | plant ha' => exact absurd ha' ha
    | graft ha' => exact absurd ha' ha
    | leak hk' => exact absurd hk' hk
    | put ha' => exact absurd ha' ha

/-- Steps of `sfs_bmap`: they add places and change no contents. -/
structure Extended (π : Perm) (L : UInt32 → Prop) (p : Ptr) (v v' : Vol) : Prop
    extends Grown L p v v' where
  steps : FileSteps π p v v'
  same : ∀ i, L i → ∀ fb, v'.sector i fb = v.sector i fb

namespace Extended

variable {π : Perm}

theorem refl (π : Perm) (h : Core L v) (p : Ptr) : Extended π L p v v :=
  ⟨.refl h p, .refl, fun _ _ _ => rfl⟩

theorem trans {a b c : Vol} (h : Extended π L p a b) (h' : Extended π L p b c) :
    Extended π L p a c :=
  ⟨h.toGrown.trans h'.toGrown, h.steps.trans h'.steps,
    fun i hi fb => (h'.same i hi fb).trans (h.same i hi fb)⟩

variable {c : UInt32} (h : Core L v) (hp : p ∈ v.fs.sfsVnodes) (hc : Fresh v c)
include h hp hc

theorem plant {s : Slot} (ha : π.alloc) (hr : (v.fs.heap p).svI.root s = 0) :
    Extended π L p v (v.plant p s c) :=
  ⟨(Grown.plant h hp hc hr).1, .single (.plant ha hc hr), (Grown.plant h hp hc hr).2⟩

theorem graft {s : Slot} {l : Path} {j : Fin 128} (ha : π.alloc)
    (hq : (v.fs.heap p).svDirty = true ∨ π.quiet) (hl : l.length < s.depth)
    (h0 : v.ref (v.ino p) s l ≠ 0) (hm : (v.disk (v.ref (v.ino p) s l).toNat).word j = 0) :
    Extended π L p v (v.graft p (v.ref (v.ino p) s l) j c) :=
  ⟨(Grown.graft h hp hc hl h0 hm).1, .single (.graft ha hq hc hl h0 hm),
    (Grown.graft h hp hc hl h0 hm).2⟩

theorem leak (hk : π.leak) : Extended π L p v (v.leak p c) :=
  ⟨(Grown.leak h hp hc).1, .single (.leak hk hc), (Grown.leak h hp hc).2⟩

end Extended

end Os161.Sfs

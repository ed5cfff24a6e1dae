import Os161.Lib.Forest
import Os161.Sfs.Mount

/-! # The volume

What the kernel and the disk together say about a volume: the current inode of
every inode number, the forest of blocks each inode owns, and the bytes of each
file. `Core` collects what every operation relies on and keeps. -/
namespace Os161.Sfs
open Os161.Lib

/-- The part of a world that holds the file system: without the static buffers
and without what is still going to fail. -/
structure Vol where
  fs : SfsFs
  disk : Nat → Sector

def vol (w : World) : Vol := ⟨w.st.fs, w.env.disk⟩

/-! ## Pointers of an inode -/

/-- The pointers of an inode; the depth of one counts the pointer blocks on the
way to data. -/
inductive Slot where
  | direct (i : Fin 15)
  | indirect
  | double
  | triple
  deriving DecidableEq

def Slot.depth : Slot → Nat
  | .direct _ => 0
  | .indirect => 1
  | .double => 2
  | .triple => 3

abbrev Path := List (Fin 128)

namespace SfsInode

def root (n : SfsInode) : Slot → UInt32
  | .direct i => n.sfiDirect i
  | .indirect => n.sfiIndirect
  | .double => n.sfiDoubleindirect
  | .triple => n.sfiTripleindirect

def setRoot (n : SfsInode) (s : Slot) (b : UInt32) : SfsInode :=
  match s with
  | .direct i => { n with sfiDirect := fun j => if j = i then b else n.sfiDirect j }
  | .indirect => { n with sfiIndirect := b }
  | .double => { n with sfiDoubleindirect := b }
  | .triple => { n with sfiTripleindirect := b }

@[simp] theorem root_setRoot (n : SfsInode) (s t : Slot) (b : UInt32) :
    (n.setRoot s b).root t = if t = s then b else n.root t := by
  cases s <;> cases t <;> simp [root, setRoot]

@[simp] theorem sfiSize_setRoot (n : SfsInode) (s : Slot) (b : UInt32) :
    (n.setRoot s b).sfiSize = n.sfiSize := by cases s <;> rfl
@[simp] theorem sfiType_setRoot (n : SfsInode) (s : Slot) (b : UInt32) :
    (n.setRoot s b).sfiType = n.sfiType := by cases s <;> rfl
@[simp] theorem sfiLinkcount_setRoot (n : SfsInode) (s : Slot) (b : UInt32) :
    (n.setRoot s b).sfiLinkcount = n.sfiLinkcount := by cases s <;> rfl
@[simp] theorem sfiBlocks_setRoot (n : SfsInode) (s : Slot) (b : UInt32) :
    (n.setRoot s b).sfiBlocks = n.sfiBlocks := by cases s <;> rfl

/-- Equal but for the block count, which is not always written back. -/
def Agrees (m n : SfsInode) : Prop := m = { n with sfiBlocks := m.sfiBlocks }

theorem Agrees.root {m n : SfsInode} (h : m.Agrees n) (s : Slot) : m.root s = n.root s := by
  rw [h]; cases s <;> rfl

theorem Agrees.refl (n : SfsInode) : n.Agrees n := rfl

theorem Agrees.trans {a b c : SfsInode} (h : a.Agrees b) (h' : b.Agrees c) : a.Agrees c := by
  unfold Agrees at h h' ⊢
  rw [h'] at h
  exact h

end SfsInode

/-- Where `sfs_bmap` looks for a file block: the inode pointer it starts from
and the subscripts it uses on the way. Outside the listed ranges it reports
`EINVAL` or uses a subscript outside its buffer. -/
def fbPath (fb : Nat) : Option (Slot × Path) :=
  if h : fb < 15 then some (.direct ⟨fb, h⟩, [])
  else
    let f := fb - 15
    if f < 128 then some (.indirect, [Fin.ofNat 128 f])
    else if f < 128 * 128 + 128 then
      some (.double, [Fin.ofNat 128 ((f - 128) / 128), Fin.ofNat 128 (f - 128)])
    else
      let g := f - (128 * 128 - 128)
      if g < 128 * 128 then some (.triple, [0, Fin.ofNat 128 (g / 128), Fin.ofNat 128 g])
      else none

/-- The first file block outside the direct, single and double indirect range. -/
@[reducible, simp] def doubleLimit : Nat := 15 + 128 + 128 * 128

/-- The first file block for which `sfs_bmap` leaves its buffer. -/
@[reducible, simp] def bufferLimit : Nat := doubleLimit + (128 * 128 - 256)

theorem fbPath_lt {fb : Nat} {x : Slot × Path} (h : fbPath fb = some x) : fb < bufferLimit := by
  by_contra hge
  simp only [bufferLimit, doubleLimit] at hge
  unfold fbPath at h
  dsimp only at h
  rw [dif_neg (by omega), if_neg (by omega), if_neg (by omega), if_neg (by omega)] at h
  cases h

theorem fbPath_length {fb : Nat} {s : Slot} {p : Path} (h : fbPath fb = some (s, p)) :
    p.length = s.depth := by
  unfold fbPath at h
  dsimp only at h
  split at h
  · cases h; rfl
  split at h
  · cases h; rfl
  split at h
  · cases h; rfl
  split at h
  · cases h; rfl
  · cases h

theorem fbPath_inj {fb fb' : Nat} {x : Slot × Path} (h : fbPath fb = some x)
    (h' : fbPath fb' = some x) : fb = fb' := by
  have fin {a b : Nat} (e : Fin.ofNat 128 a = Fin.ofNat 128 b) : a % 128 = b % 128 := by
    simpa [Fin.ext_iff, Fin.ofNat] using e
  rw [← h'] at h
  unfold fbPath at h
  dsimp only at h
  repeat' split at h
  all_goals
    try simp only [Option.some.injEq, Prod.mk.injEq, Slot.direct.injEq, Fin.mk.injEq, and_true,
      reduceCtorEq, false_and, true_and, List.cons.injEq, and_true] at h
  · exact h
  · have := fin h
    omega
  · have h1 := fin h.1
    have h2 := fin h.2
    omega
  · have h1 := fin h.1
    have h2 := fin h.2
    omega
  · have := fbPath_lt h'
    simp only [bufferLimit, doubleLimit] at this
    omega

namespace Vol

variable (v : Vol)

def ino (p : Ptr) : UInt32 := (v.fs.heap p).svIno
def nblocks : Nat := v.fs.sfsSuper.spNblocks.toNat
def isset (b : UInt32) : Bool := v.fs.sfsFreemap.isset b.toNat

/-- The vnode an inode is loaded in. -/
def loaded (i : UInt32) : Option Ptr := v.fs.sfsVnodes.find? fun p => v.ino p = i

/-- The current inode: the one in memory if there is one. -/
def inode (i : UInt32) : SfsInode :=
  match v.loaded i with
  | some p => (v.fs.heap p).svI
  | none => SfsInode.ofSector (v.disk i.toNat)

/-- The blocks of all files, as a forest. -/
def forest : Forest (UInt32 × Slot) (Fin 128) UInt32 where
  depth k := k.2.depth
  root k := (v.inode k.1).root k.2
  child b j := (v.disk b.toNat).word j

def ref (i : UInt32) (s : Slot) (p : Path) : UInt32 := v.forest.at' (i, s) p

/-- The block of an inode, or of a node below one of its pointers. -/
inductive Node where
  | self
  | node (s : Slot) (p : Path)

def Node.Valid : Node → Prop
  | .self => True
  | .node s p => p.length ≤ s.depth

def blk (i : UInt32) : Node → UInt32
  | .self => i
  | .node s p => v.ref i s p

/-- The data block a file block is mapped to, 0 for a hole. -/
def fileBlock (i : UInt32) (fb : Nat) : UInt32 :=
  match fbPath fb with
  | some (s, p) => v.ref i s p
  | none => 0

/-- The sector a file block reads as: zeros for a hole. -/
def sector (i : UInt32) (fb : Nat) : Sector :=
  if v.fileBlock i fb = 0 then Sector.zero else v.disk (v.fileBlock i fb).toNat

/-- Byte `x` of a file. -/
def byte (i : UInt32) (x : Nat) : UInt8 :=
  v.sector i (x / 512) ⟨x % 512, Nat.mod_lt _ (by decide)⟩

/-- The superblock and the blocks of the free map. -/
def Meta (b : UInt32) : Prop := b = sfsSbLocation ∨ 2 ≤ b.toNat ∧
    b.toNat < 2 + sfsBitblocks v.nblocks

end Vol

/-! ## Invariants -/

open Vol

/-- The free map, the volume and the device fit together, and what is not
available to files is marked. -/
structure Geo (v : Vol) : Prop where
  nbits : v.fs.sfsFreemap.nbits = sfsBitmapsize v.nblocks
  fits : 2 + sfsBitblocks v.nblocks ≤ v.nblocks
  device : v.nblocks ≤ v.fs.dBlocks
  offsets : v.fs.dBlocks * 512 ≤ 2 ^ 31
  tail : ∀ j, v.nblocks ≤ j → j < v.fs.sfsFreemap.nbits → v.fs.sfsFreemap.isset j = true
  metaSet : ∀ b, v.Meta b → v.isset b = true

/-- No block has two places in the files of `L`, and every block that has one
is marked, on the volume, and not one of the file system's own. -/
structure Owned (L : UInt32 → Prop) (v : Vol) : Prop where
  inj : ∀ i, L i → ∀ i', L i' → ∀ r, Node.Valid r → ∀ r', Node.Valid r' →
    v.blk i r = v.blk i' r' → v.blk i r ≠ 0 → i = i' ∧ r = r'
  marked : ∀ i, L i → ∀ r, Node.Valid r → v.blk i r ≠ 0 → v.isset (v.blk i r) = true
  range : ∀ i, L i → ∀ r, Node.Valid r → v.blk i r ≠ 0 →
    (v.blk i r).toNat < v.nblocks ∧ ¬ v.Meta (v.blk i r)

/-- The table of loaded vnodes. -/
structure Table (L : UInt32 → Prop) (v : Vol) : Prop where
  nodup : (v.fs.sfsVnodes.map v.ino).Nodup
  live : ∀ p ∈ v.fs.sfsVnodes, L (v.ino p)
  below : ∀ p ∈ v.fs.sfsVnodes, p < v.fs.brk
  held : ∀ p ∈ v.fs.sfsVnodes, 0 < (v.fs.heap p).vnRefcount
  opens : ∀ p ∈ v.fs.sfsVnodes, (v.fs.heap p).vnOpencount ≤ (v.fs.heap p).vnRefcount

/-- The root is the only directory. -/
structure Typed (L : UInt32 → Prop) (v : Vol) : Prop where
  root : L sfsRootLocation
  type : ∀ i, L i →
    (v.inode i).sfiType = if i = sfsRootLocation then sfsTypeDir else sfsTypeFile
  ops : ∀ p ∈ v.fs.sfsVnodes, (v.fs.heap p).vnOps =
    if v.ino p = sfsRootLocation then .sfsDirops else .sfsFileops

/-- A clean vnode is on disk, but for its block count. -/
def Clean (v : Vol) : Prop :=
  ∀ p ∈ v.fs.sfsVnodes, (v.fs.heap p).svDirty = false →
    (SfsInode.ofSector (v.disk (v.ino p).toNat)).Agrees (v.fs.heap p).svI

/-- What every operation relies on and keeps, for the inodes of `L`. -/
structure Core (L : UInt32 → Prop) (v : Vol) : Prop
    extends Geo v, Owned L v, Table L v, Typed L v where
  nonzero : ∀ i, L i → i ≠ 0
  clean : Clean v

end Os161.Sfs

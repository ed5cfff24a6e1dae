import Os161.Lib.Prog
import Os161.Sfs.Bitmap

/-! # Kernel state and effects

The memory the file system works on, the disk behind it, and the programs over
both. Vnodes live on the kernel heap and are reached through pointers; the
function-static buffers of `sfs_vnode.c` are part of the state. -/
namespace Os161.Sfs
open Os161.Lib

abbrev Ptr := Nat

/-- Which of the two tables of vnode operations a vnode uses. -/
inductive VnodeOps where
  | sfsFileops | sfsDirops
  deriving DecidableEq

/-- `struct sfs_vnode` with the abstract vnode inside it. -/
structure SfsVnode where
  vnRefcount : Nat
  vnOpencount : Nat
  vnOps : VnodeOps
  svI : SfsInode
  svIno : UInt32
  svDirty : Bool

/-- `struct sfs_fs`; `dBlocks` is the size of the device mounted on. The heap
holds the vnodes and `brk` is the next address `kmalloc` hands out. -/
structure SfsFs where
  sfsSuper : SfsSuper
  sfsSuperdirty : Bool
  dBlocks : Nat
  sfsVnodes : List Ptr
  sfsFreemap : Bitmap
  sfsFreemapdirty : Bool
  heap : Ptr → SfsVnode
  brk : Ptr

/-- The static buffers of `sfs_bmap`, `sfs_partialio` and `sfs_truncate`. -/
structure Bufs where
  blockbuf : Words
  iobuf : Sector
  idbuf : Words

structure Kernel where
  fs : SfsFs
  bufs : Bufs

/-- What a thread blocks on: another thread's disk operation, or its own. A
write carries the contents of the on-card buffer. -/
inductive Req where
  | wait
  | read (sector : Nat)
  | write (sector : Nat) (data : Sector)

/-- The result code of a disk operation and the on-card buffer after it. -/
structure Resp where
  result : Option Errno
  data : Sector

/-- The static buffers that are written back to disk block by block. -/
inductive StaticBuf where
  | blockbuf | iobuf
  deriving DecidableEq

/-- Points of a run that statements refer to: loading an inode; a block that is
kept in a static buffer, is on its way back to disk, is no longer needed; an
allocation that finds no space. -/
inductive Ev where
  | loadBegin (ino : UInt32)
  | loadEnd (ino : UInt32)
  | loaded (sv : Ptr)
  | staged (b : StaticBuf)
  | writeBack (b : StaticBuf)
  | released (b : StaticBuf)
  | noSpace
  deriving DecidableEq

@[reducible] def kernSig : Sig where
  State := Kernel
  Err := Errno
  Stop := Stop
  Req := Req
  Resp := Resp
  Ev := Ev

abbrev Kern := Prog kernSig

/-- The disk, and what goes wrong: for each coming read, write and memory
allocation whether it fails. An exhausted list means success from there on. -/
structure Device where
  disk : Nat → Sector
  readFaults : List Bool
  writeFaults : List Bool
  memFaults : List Bool

/-- A failed operation reports `EIO` (`LHD_MEDIA`) and moves nothing; a sector the
device does not have is refused (`LHD_INVSECT`). -/
def serve : Kernel → Req → Device → Resp × Device
  | _, .wait, d => (⟨none, Sector.zero⟩, d)
  | k, .read sector, d =>
    if k.fs.dBlocks ≤ sector then (⟨some .einval, Sector.zero⟩, d)
    else if d.readFaults.headD false then
      (⟨some .eio, Sector.zero⟩, { d with readFaults := d.readFaults.tail })
    else (⟨none, d.disk sector⟩, { d with readFaults := d.readFaults.tail })
  | k, .write sector data, d =>
    if k.fs.dBlocks ≤ sector then (⟨some .einval, data⟩, d)
    else if d.writeFaults.headD false then
      (⟨some .eio, data⟩, { d with writeFaults := d.writeFaults.tail })
    else (⟨none, data⟩,
      { d with writeFaults := d.writeFaults.tail,
               disk := fun b => if b = sector then data else d.disk b })

@[reducible] def machine : Outside kernSig where
  Env := Device
  serve := serve
  toss d := (d.memFaults.headD false, { d with memFaults := d.memFaults.tail })

abbrev World := Lib.World machine

/-- The results of C functions that also hand back a changed argument:
`none` is 0. -/
abbrev Result := Option Errno

/-! ## Machine integers -/

/-- Conversion to `off_t` and `int`. -/
def i32 (x : Int) : Int := if x % 2 ^ 32 < 2 ^ 31 then x % 2 ^ 32 else x % 2 ^ 32 - 2 ^ 32

/-- Conversion to `u_int32_t` and `size_t`. -/
def u32 (x : Int) : Nat := (x % 2 ^ 32).toNat

theorem i32_eq {x : Int} (h0 : 0 ≤ x) (h : x < 2 ^ 31) : i32 x = x := by
  unfold i32
  split <;> omega

theorem u32_eq {x : Int} (h0 : 0 ≤ x) (h : x < 2 ^ 32) : u32 x = x.toNat := by
  unfold u32
  omega

@[simp] theorem u32_natCast {n : Nat} (h : n < 2 ^ 32) : u32 n = n := by
  unfold u32
  omega

/-! ## State access -/

namespace Kern

def getKernel : Kern Kernel := Prog.getS
def diskRequest (r : Req) : Kern Resp := Prog.request r

def getFs : Kern SfsFs := do return (← getKernel).fs
def modifyFs (f : SfsFs → SfsFs) : Kern Unit := Prog.modifyS fun k => { k with fs := f k.fs }
def modifyBufs (f : Bufs → Bufs) : Kern Unit := Prog.modifyS fun k => { k with bufs := f k.bufs }

def getVnode (sv : Ptr) : Kern SfsVnode := do return (← getFs).heap sv

end Kern

namespace SfsFs

def setVnode (fs : SfsFs) (sv : Ptr) (n : SfsVnode) : SfsFs :=
  { fs with heap := fun p => if p = sv then n else fs.heap p }

def modifyVnode (fs : SfsFs) (sv : Ptr) (f : SfsVnode → SfsVnode) : SfsFs :=
  fs.setVnode sv (f (fs.heap sv))

def modifyInode (fs : SfsFs) (sv : Ptr) (f : SfsInode → SfsInode) : SfsFs :=
  fs.modifyVnode sv fun n => { n with svI := f n.svI }

end SfsFs

namespace Kern

def modifyVnode (sv : Ptr) (f : SfsVnode → SfsVnode) : Kern Unit :=
  modifyFs fun fs => fs.modifyVnode sv f
def modifyInode (sv : Ptr) (f : SfsInode → SfsInode) : Kern Unit :=
  modifyFs fun fs => fs.modifyInode sv f
def setDirty (sv : Ptr) : Kern Unit := modifyVnode sv fun n => { n with svDirty := true }

/-- Whether `kmalloc` returned memory. -/
def kmalloc : Kern Bool := do return !(← Prog.choose)

def ofExcept {α : Type} : Except Stop α → Kern α
  | .ok a => pure a
  | .error m => Prog.stop m

/-- `return result` of a function whose changed arguments are not needed. -/
def check : Result → Kern Unit
  | none => pure ()
  | some e => Prog.fail e

end Kern

end Os161.Sfs

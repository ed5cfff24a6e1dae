/-! # Error numbers and stops

`Errno` lists the error codes the modelled functions return. `Stop` has one
constructor for each `panic` and `assert` they contain, plus one for a
subscript outside a static buffer, where C gives the program no meaning. -/
namespace Os161

inductive Errno where
  | einval | eio | enospc | enoent | eexist | enametoolong | enotdir | eisdir | eunimp
  | enomem | ebusy | efault | exdev | enxio | enodev
  deriving DecidableEq, Repr

inductive Stop where
  -- bitmap.c
  | bitmapAllocRange | bitmapAllocNone
  | bitmapMarkRange | bitmapMarkSet
  | bitmapUnmarkRange | bitmapUnmarkClear
  -- uio.c
  | uiomoveSize | uiomovezerosRw
  -- vnode.c
  | vnodeDecref | vnodeDecopen | vnodeKillRefcount | vnodeKillOpencount
  -- array.c
  | arrayGetguy
  -- sfs_io.c
  | dIoEinval
  -- sfs_vnode.c: allocation and block mapping
  | ballocInvalid (block : UInt32)
  | busedRange (block : UInt32)
  | bmapFree (block : UInt32) (fileblock : Nat) (ino : UInt32)
  | blockbufIndex (blockno : Nat)
  -- sfs_vnode.c: file I/O
  | partialioLen | iobufIndex | partialioHole | blockioHole | blockioResid
  | ioExtraresid | ioAligned | ioTail | readRw | writeRw
  -- sfs_vnode.c: directories
  | readdirShort (ino : UInt32) | writedirSlot | writedirShort (ino : UInt32)
  | nentriesType | nentriesSize (ino : UInt32) | findnameTwice
  | lookonceLinkcount (ino dir : UInt32)
  -- sfs_vnode.c: vnode operations
  | reclaimPool (ino : UInt32)
  | removeLinkcount
  | renameDirs | renameRoot | renameType | renameLinkcount | renameRecover
  | loadvnodeFound (ino : UInt32) | loadvnodeForcetype | loadvnodeTried (ino : UInt32)
  | loadvnodeInval | loadvnodeType (ino : UInt32) (type : UInt16)
  | getroot
  deriving DecidableEq, Repr

end Os161

import Os161.Sfs.NamespaceRuns
import Os161.Vfs.Paths

/-! # Operations on paths that lead to a volume

`vfspath.c` and `vfslookup.c` over the operations of the volume. What is on other file systems and
devices is told apart from the volume, and what they answer comes from outside. -/
namespace Os161.Sfs
open Os161.Lib Kern Vol

/-! ## Vnodes -/

/-- A vnode of the volume, or of another file system or device. -/
inductive Node where
  | here (p : Ptr)
  | elsewhere

/-- What a path is looked up in: the current directory of the thread, the vnode of the boot file
system, and the table of devices, which leads to the volume (`true`) or to something else. -/
structure Mounts where
  tCwd : Option Node
  bootfsVnode : Option Node
  getroot : Vfs.Name → Except Errno Bool

/-- A path, and the results of another file system or device if the path leads there: of
`VOP_LOOKUP` and `VOP_LOOKPARENT`, and of what is done after that. -/
structure PathArg where
  path : CString
  lookup : Except Errno Unit
  result : Except Errno Unit

def oAppend : UInt32 := 32

def answer : Except Errno Unit → Kern Unit
  | .ok _ => pure ()
  | .error e => Prog.fail e

/-- `sfs_open` and `sfs_opendir`. -/
def vopOpen (sv : Ptr) (openflags : UInt32) : Kern Unit := do
  match (← getVnode sv).vnOps with
  | .sfsFileops => if openflags &&& oAppend ≠ 0 then Prog.fail .eunimp else pure ()
  | .sfsDirops =>
    if openflags &&& Vfs.oAccmode ≠ Vfs.oRdonly then Prog.fail .eisdir
    else if openflags &&& oAppend ≠ 0 then Prog.fail .eisdir
    else pure ()

namespace Node

def incref : Node → Kern Unit
  | here p => vnodeIncref p
  | elsewhere => pure ()

def decref : Node → Kern Unit
  | here p => vnodeDecref p
  | elsewhere => pure ()

/-- `FSOP_GETROOT` of the file system the vnode is on. -/
def getroot : Node → Kern Node
  | here _ => do return here (← sfsGetroot)
  | elsewhere => return elsewhere

def lookup (a : PathArg) (path : CString) : Node → Kern Node
  | here p => do return here (← vopLookup p path)
  | elsewhere => do
    answer a.lookup
    return elsewhere

def lookparent (a : PathArg) (path : CString) (buflen : Nat) : Node → Kern (Node × CString)
  | here p => do
    let (dir, name) ← vopLookparent p path buflen
    return (here dir, name)
  | elsewhere => do
    answer a.lookup
    return (elsewhere, path)

def creat (a : PathArg) (name : CString) (excl : Bool) : Node → Kern Node
  | here p => do return here (← vopCreat p name excl)
  | elsewhere => do
    answer a.result
    return elsewhere

def remove (a : PathArg) (name : CString) : Node → Kern Unit
  | here p => vopRemove p name
  | elsewhere => answer a.result

/-- `result = ..; VOP_DECREF(n); return result;` -/
def release {α : Type} (n : Node) (op : Kern α) : Kern α := do
  match ← op.attempt with
  | .error e => do
    n.decref
    Prog.fail e
  | .ok x => do
    n.decref
    return x

end Node

/-! ## Prefixes -/

/-- What is left of a path after the separator at `i` and the slashes that follow it. -/
def CString.subpath (path : CString) (i : Nat) : CString where
  bytes := Vfs.subpathAfter path.bytes i
  noNul h := path.noNul (List.mem_of_mem_drop ((List.dropWhile_sublist _).subset h))

namespace Mounts

def vfsGetcurdir (m : Mounts) : Kern Node :=
  match m.tCwd with
  | none => Prog.fail .enoent
  | some cwd => do
    cwd.incref
    return cwd

def vfsGetroot (m : Mounts) (devname : Vfs.Name) : Kern Node :=
  match m.getroot devname with
  | .error e => Prog.fail e
  | .ok true => do return .here (← sfsGetroot)
  | .ok false => return .elsewhere

def getdevice (m : Mounts) (path : CString) : Kern (CString × Node) :=
  match Vfs.firstSeparator path.bytes 0 with
  | none => do return (path, ← m.vfsGetcurdir)
  | some (i, c) =>
    if c = 47 ∧ i ≠ 0 then do return (path, ← m.vfsGetcurdir)
    else if c = 58 ∧ i > 0 then do return (path.subpath i, ← m.vfsGetroot (path.bytes.take i))
    else if c = 47 then
      match m.bootfsVnode with
      | none => Prog.fail .enoent
      | some vn => do
        vn.incref
        return (path.subpath 0, vn)
    else do
      let vn ← m.vfsGetcurdir
      let startvn ← vn.getroot
      vn.decref
      return (path.subpath 0, startvn)

def vfsLookparent (m : Mounts) (a : PathArg) (buflen : Nat) : Kern (Node × CString) := do
  let (path, startvn) ← m.getdevice a.path
  startvn.release (if path.length = 0 then Prog.fail .einval else startvn.lookparent a path buflen)

def vfsLookup (m : Mounts) (a : PathArg) : Kern Node := do
  let (path, startvn) ← m.getdevice a.path
  if path.length = 0 then return startvn
  else startvn.release (startvn.lookup a path)

/-! ## Operations -/

/-- The vnode that `vfs_open` opens. -/
def openTarget (m : Mounts) (a : PathArg) (openflags : UInt32) : Kern Node :=
  if openflags &&& Vfs.oCreat ≠ 0 then do
    let (dir, name) ← m.vfsLookparent a (Vfs.nameMax + 1)
    dir.release (dir.creat a name (openflags &&& Vfs.oExcl ≠ 0))
  else m.vfsLookup a

/-- The truncation in `vfs_open`. -/
def openTrunc (vn : Ptr) (openflags : UInt32) (canwrite : Bool) : Kern Unit :=
  if openflags &&& Vfs.oTrunc ≠ 0 then do
    match ← (if canwrite then vopTruncate vn 0 else Prog.fail .einval : Kern Unit).attempt with
    | .error e => do
      vnodeDecopen vn
      vnodeDecref vn
      Prog.fail e
    | .ok _ => pure ()
  else pure ()

def vfsOpen (m : Mounts) (a : PathArg) (openflags : UInt32) : Kern Node := do
  let how := openflags &&& Vfs.oAccmode
  if how = Vfs.oRdonly ∨ how = Vfs.oWronly ∨ how = Vfs.oRdwr then do
    match ← m.openTarget a openflags with
    | .elsewhere => do
      answer a.result
      return .elsewhere
    | .here vn => do
      match ← (vopOpen vn openflags).attempt with
      | .error e => do
        vnodeDecref vn
        Prog.fail e
      | .ok _ => do
        vnodeIncopen vn
        openTrunc vn openflags (how ≠ Vfs.oRdonly)
        return .here vn
  else Prog.fail .einval

def vfsRemove (m : Mounts) (a : PathArg) : Kern Unit := do
  let (dir, name) ← m.vfsLookparent a (Vfs.nameMax + 1)
  dir.release (dir.remove a name)

/-- `VOP_RENAME`, if both directories are on one file system. -/
def renameIn (a : PathArg) (oldname newname : CString) : (olddir newdir : Node) → Kern Unit
  | .here d1, .here d2 => vopRename d1 oldname d2 newname
  | .elsewhere, .elsewhere => answer a.result
  | _, _ => Prog.fail .exdev

def vfsRename (m : Mounts) (a b : PathArg) : Kern Unit := do
  let (olddir, oldname) ← m.vfsLookparent a (Vfs.nameMax + 1)
  olddir.release do
    let (newdir, newname) ← m.vfsLookparent b (Vfs.nameMax + 1)
    newdir.release (renameIn a oldname newname olddir newdir)

/-- `VOP_LINK`, if the file and the directory are on one file system. -/
def linkIn (a : PathArg) (newname : CString) : (oldfile newdir : Node) → Kern Unit
  | .here f, .here d => vopLink d newname f
  | .elsewhere, .elsewhere => answer a.result
  | _, _ => Prog.fail .exdev

def vfsLink (m : Mounts) (a b : PathArg) : Kern Unit := do
  let oldfile ← m.vfsLookup a
  oldfile.release do
    let (newdir, newname) ← m.vfsLookparent b (Vfs.nameMax + 1)
    newdir.release (linkIn a newname oldfile newdir)

end Mounts

def vfsClose (vn : Ptr) : Kern Unit := do
  vnodeDecopen vn
  vnodeDecref vn

/-! ## Calls -/

/-- Operations on paths, on vnodes that are open, and on vnodes the kernel holds. -/
inductive PathCall where
  | open (m : Mounts) (a : PathArg) (openflags : UInt32)
  | lookup (m : Mounts) (a : PathArg)
  | remove (m : Mounts) (a : PathArg)
  | rename (m : Mounts) (a b : PathArg)
  | link (m : Mounts) (a b : PathArg)
  | close (vn : Ptr)
  | io (file : Ptr) (c : Call)
  | truncate (file : Ptr) (len : Int)
  | fsync (file : Ptr)
  | incref (file : Ptr)
  | decref (file : Ptr)

def PathCall.call : PathCall → Kern Unit
  | .open m a openflags => do
    let _ ← m.vfsOpen a openflags
    pure ()
  | .lookup m a => do
    let _ ← m.vfsLookup a
    pure ()
  | .remove m a => m.vfsRemove a
  | .rename m a b => m.vfsRename a b
  | .link m a b => m.vfsLink a b
  | .close vn => vfsClose vn
  | .io file c => do
    let _ ← c.vop file
    pure ()
  | .truncate file len => vopTruncate file len
  | .fsync file => vopFsync file
  | .incref file => vnodeIncref file
  | .decref file => vnodeDecref file

end Os161.Sfs

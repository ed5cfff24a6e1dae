import Os161.Sfs.Directory

/-! # Vnode operations

`sfs_reclaim`, the namespace operations of `sfs_vnode.c`, and the two tables of
operations: what the vnodes of regular files do not support returns `ENOTDIR`,
what the directory does not support returns `EISDIR`. -/
namespace Os161.Sfs
open Os161.Lib Kern

/-! ## Regular files -/

def sfsRead (sv : Ptr) (uio : Uio) : Kern (Uio × Result) :=
  if uio.uioRw = .uioRead then sfsIo sv uio else Prog.stop .readRw

def sfsWrite (sv : Ptr) (uio : Uio) : Kern (Uio × Result) :=
  if uio.uioRw = .uioWrite then sfsIo sv uio else Prog.stop .writeRw

def vopRead (sv : Ptr) (uio : Uio) : Kern (Uio × Result) := do
  match (← getVnode sv).vnOps with
  | .sfsFileops => sfsRead sv uio
  | .sfsDirops => return (uio, some .eisdir)

def vopWrite (sv : Ptr) (uio : Uio) : Kern (Uio × Result) := do
  match (← getVnode sv).vnOps with
  | .sfsFileops => sfsWrite sv uio
  | .sfsDirops => return (uio, some .eisdir)

def vopTruncate (sv : Ptr) (len : Int) : Kern Unit := do
  match (← getVnode sv).vnOps with
  | .sfsFileops => sfsTruncate sv len
  | .sfsDirops => Prog.fail .eisdir

/-- `sfs_fsync`, the same for both tables. -/
def vopFsync (sv : Ptr) : Kern Unit := sfsSyncInode sv

/-! ## Reclaiming -/

/-- `VOP_KILL`. -/
def vnodeKill (sv : Ptr) : Kern Unit := do
  let n ← getVnode sv
  if n.vnRefcount ≠ 1 then Prog.stop .vnodeKillRefcount
  else if n.vnOpencount ≠ 0 then Prog.stop .vnodeKillOpencount
  else pure ()

/-- The end of `sfs_reclaim`: take the vnode out of the table and free it. -/
def sfsReclaim.remove (sv : Ptr) : Kern Unit := do
  let fs ← getFs
  if sv ∈ fs.sfsVnodes then do
    modifyFs fun fs => { fs with sfsVnodes := fs.sfsVnodes.erase sv }
    vnodeKill sv
  else Prog.stop (.reclaimPool (fs.heap sv).svIno)

def sfsReclaim (sv : Ptr) : Kern Unit := do
  if (← getVnode sv).vnRefcount ≠ 1 then Prog.fail .ebusy
  else do
    if (← getVnode sv).svI.sfiLinkcount = 0 then vopTruncate sv 0 else pure ()
    sfsSyncInode sv
    let n ← getVnode sv
    if n.svI.sfiLinkcount = 0 then do
      sfsBfree n.svIno
      modifyInode sv fun i => { i with sfiBlocks := i.sfiBlocks - 1 }
    else pure ()
    sfsReclaim.remove sv

/-- `vnode_decref`: an error of the reclaim is only printed. -/
def vnodeDecref (sv : Ptr) : Kern Unit := do
  let n ← getVnode sv
  if n.vnRefcount = 0 then Prog.stop .vnodeDecref
  else if n.vnRefcount > 1 then modifyVnode sv fun n => { n with vnRefcount := n.vnRefcount - 1 }
  else do
    let _ ← (sfsReclaim sv).attempt
    pure ()

def vnodeIncopen (sv : Ptr) : Kern Unit :=
  modifyVnode sv fun n => { n with vnOpencount := n.vnOpencount + 1 }

/-- `vnode_decopen`; `sfs_close` syncs the inode, and an error of it is only printed. -/
def vnodeDecopen (sv : Ptr) : Kern Unit := do
  let n ← getVnode sv
  if n.vnOpencount = 0 then Prog.stop .vnodeDecopen
  else do
    modifyVnode sv fun n => { n with vnOpencount := n.vnOpencount - 1 }
    if n.vnOpencount - 1 > 0 then pure ()
    else do
      let _ ← (vopFsync sv).attempt
      pure ()

/-! ## The directory -/

def sfsCreat (sv : Ptr) (name : CString) (excl : Bool) : Kern Ptr := do
  let r ← sfsDirFindname sv name
  match r.found with
  | some (ino, _) =>
    if excl then Prog.fail .eexist else sfsLoadvnode ino sfsTypeInval
  | none => do
    let newguy ← sfsMakeobj sfsTypeFile
    match ← (sfsDirLink sv name (← getVnode newguy).svIno).attempt with
    | .error e => do
      vnodeDecref newguy
      Prog.fail e
    | .ok _ => do
      modifyInode newguy fun i => { i with sfiLinkcount := i.sfiLinkcount + 1 }
      setDirty newguy
      return newguy

/-- `sfs_link`; both vnodes are on this file system. -/
def sfsLink (sv : Ptr) (name : CString) (f : Ptr) : Kern Unit := do
  let _ ← sfsDirLink sv name (← getVnode f).svIno
  modifyInode f fun i => { i with sfiLinkcount := i.sfiLinkcount + 1 }
  setDirty f

def sfsRemove (sv : Ptr) (name : CString) : Kern Unit := do
  let (victim, slot) ← sfsLookonce sv name
  match ← (sfsDirUnlink sv slot).attempt with
  | .ok _ => do
    if (← getVnode victim).svI.sfiLinkcount = 0 then Prog.stop .removeLinkcount
    else do
      modifyInode victim fun i => { i with sfiLinkcount := i.sfiLinkcount - 1 }
      setDirty victim
      vnodeDecref victim
  | .error e => do
    vnodeDecref victim
    Prog.fail e

/-- `sfs_rename` after the new name was linked in slot `slot2`. -/
def sfsRename.unlinkOld (sv g1 : Ptr) (slot1 slot2 : Nat) : Kern Unit := do
  modifyInode g1 fun i => { i with sfiLinkcount := i.sfiLinkcount + 1 }
  setDirty g1
  match ← (sfsDirUnlink sv slot1).attempt with
  | .ok _ =>
    if (← getVnode g1).svI.sfiLinkcount = 0 then Prog.stop .renameLinkcount
    else do
      modifyInode g1 fun i => { i with sfiLinkcount := i.sfiLinkcount - 1 }
      setDirty g1
      vnodeDecref g1
  | .error e => do
    -- puke_harder
    match ← (sfsDirUnlink sv slot2).attempt with
    | .error _ => Prog.stop .renameRecover
    | .ok _ => do
      vnodeDecref g1
      Prog.fail e

def sfsRename (d1 : Ptr) (n1 : CString) (d2 : Ptr) (n2 : CString) : Kern Unit := do
  if d1 ≠ d2 then Prog.stop .renameDirs
  else if (← getVnode d1).svIno ≠ sfsRootLocation then Prog.stop .renameRoot
  else do
    let (g1, slot1) ← sfsLookonce d1 n1
    let n ← getVnode g1
    if n.svI.sfiType ≠ sfsTypeFile then Prog.stop .renameType
    else do
      match ← (sfsDirLink d1 n2 n.svIno).attempt with
      | .error e => do
        -- puke
        vnodeDecref g1
        Prog.fail e
      | .ok slot2 => sfsRename.unlinkOld d1 g1 slot1 slot2

/-- `sfs_lookparent`; `buflen` is the size of the caller's name buffer. -/
def sfsLookparent (sv : Ptr) (path : CString) (buflen : Nat) : Kern (Ptr × CString) := do
  if (← getVnode sv).svI.sfiType ≠ sfsTypeDir then Prog.fail .enotdir
  else if path.length + 1 > buflen then Prog.fail .enametoolong
  else do
    vnodeIncref sv
    return (sv, path)

def sfsLookup (sv : Ptr) (path : CString) : Kern Ptr := do
  if (← getVnode sv).svI.sfiType ≠ sfsTypeDir then Prog.fail .enotdir
  else do
    let (final, _) ← sfsLookonce sv path
    return final

/-- An operation of the directory's table that regular files refuse. -/
def dirOnly {α : Type} (sv : Ptr) (op : Kern α) : Kern α := do
  match (← getVnode sv).vnOps with
  | .sfsDirops => op
  | .sfsFileops => Prog.fail .enotdir

def vopCreat (dir : Ptr) (name : CString) (excl : Bool) : Kern Ptr :=
    dirOnly dir (sfsCreat dir name excl)
def vopLink (dir : Ptr) (name : CString) (file : Ptr) : Kern Unit :=
    dirOnly dir (sfsLink dir name file)
def vopRemove (dir : Ptr) (name : CString) : Kern Unit := dirOnly dir (sfsRemove dir name)
def vopRename (d1 : Ptr) (n1 : CString) (d2 : Ptr) (n2 : CString) : Kern Unit :=
  dirOnly d1 (sfsRename d1 n1 d2 n2)
def vopLookup (dir : Ptr) (path : CString) : Kern Ptr := dirOnly dir (sfsLookup dir path)
def vopLookparent (dir : Ptr) (path : CString) (buflen : Nat) : Kern (Ptr × CString) :=
  dirOnly dir (sfsLookparent dir path buflen)

end Os161.Sfs

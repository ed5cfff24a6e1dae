import Os161.Sfs.FileIo

/-! # Directories and loading vnodes

The directory part of `sfs_vnode.c`, `sfs_loadvnode`, and the reference counts
of `kern/fs/vfs/vnode.c`. The root directory is the only one. -/
namespace Os161.Sfs
open Os161.Lib Kern

/-! ## Directory entries -/

def sfsReaddir (sv : Ptr) (slot : Nat) : Kern SfsDir := do
  let actualpos := i32 (u32 (slot * SfsDir.size))
  let (ku, result) ← sfsIo sv (mkKuio (fun _ => []) SfsDir.size actualpos .uioRead)
  check result
  if ku.uioResid > 0 then Prog.stop (.readdirShort (← getVnode sv).svIno)
  else return SfsDir.ofBytes ku.iovOut

/-- `sfs_writedir`; a slot is never negative here. -/
def sfsWritedir (sv : Ptr) (sd : SfsDir) (slot : Nat) : Kern Unit := do
  let actualpos := i32 (u32 (slot * SfsDir.size))
  let (ku, result) ← sfsIo sv (mkKuio (fun _ => sd.toBytes) SfsDir.size actualpos .uioWrite)
  check result
  if ku.uioResid > 0 then Prog.stop (.writedirShort (← getVnode sv).svIno)
  else pure ()

def sfsDirNentries (sv : Ptr) : Kern Nat := do
  let n ← getVnode sv
  if n.svI.sfiType ≠ sfsTypeDir then Prog.stop .nentriesType
  else if n.svI.sfiSize.toNat % SfsDir.size ≠ 0 then Prog.stop (.nentriesSize n.svIno)
  else return n.svI.sfiSize.toNat / SfsDir.size

/-- What `sfs_dir_findname` reports: the inode number and slot of the name, if
it is there (else the function returns `ENOENT`), and an empty slot. -/
structure Findname where
  found : Option (UInt32 × Nat)
  emptyslot : Option Nat

/-- The scan over the slots; `n` remain and `i` is next. -/
def sfsDirFindname.scan (sv : Ptr) (name : CString) : (n i : Nat) → Findname → Kern Findname
  | 0, _, r => pure r
  | n + 1, i, r => do
    let tsd ← sfsReaddir sv i
    if tsd.sfdIno = sfsNoino then
      sfsDirFindname.scan sv name n (i + 1) { r with emptyslot := some i }
    else if tsd.name = name then
      if r.found.isSome then Prog.stop .findnameTwice
      else sfsDirFindname.scan sv name n (i + 1) { r with found := some (tsd.sfdIno, i) }
    else sfsDirFindname.scan sv name n (i + 1) r

def sfsDirFindname (sv : Ptr) (name : CString) : Kern Findname := do
  let nentries ← sfsDirNentries sv
  sfsDirFindname.scan sv name nentries 0 ⟨none, none⟩

/-- `sfs_dir_link`; the slot is handed back. -/
def sfsDirLink (sv : Ptr) (name : CString) (ino : UInt32) : Kern Nat := do
  let r ← sfsDirFindname sv name
  if r.found.isSome then Prog.fail .eexist
  else if name.length + 1 > sfsNamelen then Prog.fail .enametoolong
  else do
    let slot ← match r.emptyslot with
      | some s => pure s
      | none => sfsDirNentries sv
    sfsWritedir sv (SfsDir.mk' ino name) slot
    return slot

def sfsDirUnlink (sv : Ptr) (slot : Nat) : Kern Unit := sfsWritedir sv SfsDir.free slot

/-! ## Loading vnodes -/

def vnodeIncref (sv : Ptr) : Kern Unit :=
  modifyVnode sv fun n => { n with vnRefcount := n.vnRefcount + 1 }

/-- The search through the table of loaded vnodes. -/
def sfsLoadvnode.search (ino : UInt32) (forcetype : UInt16) : List Ptr → Kern (Option Ptr)
  | [] => pure none
  | sv :: rest => do
    let n ← getVnode sv
    if ← sfsBused n.svIno then
      if n.svIno = ino then
        if forcetype ≠ sfsTypeInval then Prog.stop .loadvnodeForcetype
        else do
          vnodeIncref sv
          return some sv
      else sfsLoadvnode.search ino forcetype rest
    else Prog.stop (.loadvnodeFound n.svIno)

/-- The vnode for a freshly read inode: its type, the table of operations the
type selects, and the initial counts. -/
def sfsLoadvnode.init (ino : UInt32) (forcetype : UInt16) (i : SfsInode) : Except Stop SfsVnode :=
  if forcetype ≠ sfsTypeInval ∧ i.sfiType ≠ sfsTypeInval then .error .loadvnodeInval
  else
    let i' := if forcetype ≠ sfsTypeInval then { i with sfiType := forcetype } else i
    let mk (ops : VnodeOps) : SfsVnode := ⟨1, 0, ops, i', ino, forcetype ≠ sfsTypeInval⟩
    if i'.sfiType = sfsTypeFile then .ok (mk .sfsFileops)
    else if i'.sfiType = sfsTypeDir then .ok (mk .sfsDirops)
    else .error (.loadvnodeType ino i'.sfiType)

/-- What `sfs_loadvnode` does with the inode in memory: initialise the vnode and
add it to the table. The lock of the vnode and the table may need memory. -/
def sfsLoadvnode.insert (ino : UInt32) (forcetype : UInt16) (sv : Ptr) (i : SfsInode) :
    Kern Unit := do
  let n ← ofExcept (sfsLoadvnode.init ino forcetype i)
  if ← kmalloc then
    if ← kmalloc then
      modifyFs fun fs => { fs.setVnode sv n with sfsVnodes := fs.sfsVnodes ++ [sv] }
    else Prog.fail .enomem
  else Prog.fail .enomem

def sfsLoadvnode (ino : UInt32) (forcetype : UInt16) : Kern Ptr := do
  let fs ← getFs
  match ← sfsLoadvnode.search ino forcetype fs.sfsVnodes with
  | some sv => do
    Prog.mark (.loaded sv)
    return sv
  | none =>
    if ← kmalloc then do
      let sv := (← getFs).brk
      modifyFs fun fs => { fs with brk := fs.brk + 1 }
      if ← sfsBused ino then do
        Prog.mark (.loadBegin ino)
        match ← (sfsRblock ino).attempt with
        | .error e => do
          Prog.mark (.loadEnd ino)
          Prog.fail e
        | .ok s =>
          match ← (sfsLoadvnode.insert ino forcetype sv (SfsInode.ofSector s)).attempt with
          | .error e => do
            Prog.mark (.loadEnd ino)
            Prog.fail e
          | .ok _ => do
            Prog.mark (.loadEnd ino)
            Prog.mark (.loaded sv)
            return sv
      else Prog.stop (.loadvnodeTried ino)
    else Prog.fail .enomem

def sfsGetroot : Kern Ptr := do
  match ← (sfsLoadvnode sfsRootLocation sfsTypeInval).attempt with
  | .ok sv => return sv
  | .error _ => Prog.stop .getroot

/-- `sfs_lookonce`; the vnode and the slot are handed back. -/
def sfsLookonce (sv : Ptr) (name : CString) : Kern (Ptr × Nat) := do
  let r ← sfsDirFindname sv name
  match r.found with
  | none => Prog.fail .enoent
  | some (ino, slot) => do
    let ret ← sfsLoadvnode ino sfsTypeInval
    let n ← getVnode ret
    if n.svI.sfiLinkcount = 0 then Prog.stop (.lookonceLinkcount n.svIno (← getVnode sv).svIno)
    else return (ret, slot)

def sfsMakeobj (type : UInt16) : Kern Ptr := do
  let ino ← sfsBalloc
  sfsLoadvnode ino type

end Os161.Sfs

import Os161.Sfs.BlockIo

/-! # Space allocation and block mapping

The first part of `sfs_vnode.c`: `sfs_balloc`, `sfs_bfree`, `sfs_bused` and
`sfs_bmap` with its two nested functions. -/
namespace Os161.Sfs
open Os161.Lib Kern

def sfsClearblock (block : UInt32) : Kern Unit := sfsWblock (fun _ => Sector.zero) block

/-- Write an inode back out to disk if it changed. -/
def sfsSyncInode (sv : Ptr) : Kern Unit := do
  let n ← getVnode sv
  if n.svDirty then do
    sfsWblock (fun k => (k.fs.heap sv).svI.toSector) n.svIno
    modifyVnode sv fun n => { n with svDirty := false }
  else pure ()

/-! ## Space allocation -/

def sfsBalloc : Kern UInt32 := do
  let fs ← getFs
  match ← ofExcept (bitmapAlloc fs.sfsFreemap) with
  | none => do
    Prog.mark .noSpace
    Prog.fail .enospc
  | some (index, map) => do
    let diskblock := UInt32.ofNat index
    modifyFs fun fs => { fs with sfsFreemap := map, sfsFreemapdirty := true }
    if diskblock ≥ fs.sfsSuper.spNblocks then Prog.stop (.ballocInvalid diskblock)
    else do
      sfsClearblock diskblock
      return diskblock

def sfsBfree (diskblock : UInt32) : Kern Unit := do
  let fs ← getFs
  let map ← ofExcept (bitmapUnmark fs.sfsFreemap diskblock.toNat)
  modifyFs fun fs => { fs with sfsFreemap := map, sfsFreemapdirty := true }

def sfsBused (diskblock : UInt32) : Kern Bool := do
  let fs ← getFs
  if diskblock ≥ fs.sfsSuper.spNblocks then Prog.stop (.busedRange diskblock)
  else return bitmapIsset fs.sfsFreemap diskblock.toNat

/-! ## Block mapping -/

/-- `loadbuffer` in `sfs_bmap`: `level` is 0 for the block the inode points to.
Hands back the value of `idblock`, which changes when a block is allocated. -/
def loadbuffer (sv : Ptr) (idblevel : Nat) (idblock block : UInt32) (level : Nat) :
    Kern UInt32 := do
  if block = 0 then do
    let block ← sfsBalloc
    modifyInode sv fun i => { i with sfiBlocks := i.sfiBlocks + 1 }
    if level = 0 then
      modifyInode sv fun i =>
        if idblevel = 1 then { i with sfiIndirect := block }
        else if idblevel = 2 then { i with sfiDoubleindirect := block }
        else if idblevel = 3 then { i with sfiTripleindirect := block }
        else i
    else pure ()
    setDirty sv
    modifyBufs fun b => { b with blockbuf := fun _ => 0 }
    return block
  else do
    let s ← sfsRblock block
    modifyBufs fun b => { b with blockbuf := s.words }
    return idblock

/-- `get_block` in `sfs_bmap`. A subscript of 128 or more is outside the
buffer. -/
def getBlock (sv : Ptr) (doalloc : Bool) (idblock : UInt32) (blockno : Nat) : Kern UInt32 := do
  if h : blockno < sfsDbperidb then do
    let block := (← getKernel).bufs.blockbuf ⟨blockno, h⟩
    if block = 0 ∧ doalloc then do
      Prog.mark (.staged .blockbuf)
      let block ← sfsBalloc
      modifyInode sv fun i => { i with sfiBlocks := i.sfiBlocks + 1 }
      modifyBufs fun b =>
        { b with blockbuf := fun j => if j = ⟨blockno, h⟩ then block else b.blockbuf j }
      Prog.mark (.writeBack .blockbuf)
      sfsWblock (fun k => Sector.ofWords k.bufs.blockbuf) idblock
      Prog.mark (.released .blockbuf)
      return block
    else return block
  else Prog.stop (.blockbufIndex blockno)

/-- Clearing the buffer and loading the next level through `block`, which
`get_block` has just found. -/
def descend (sv : Ptr) (idblevel : Nat) (block : UInt32) : Kern UInt32 := do
  modifyBufs fun b => { b with blockbuf := fun _ => 0 }
  loadbuffer sv idblevel block block 1

/-- The check every found block goes through before it is handed back. -/
def bmapReturn (sv : Ptr) (fileblock : Nat) (block : UInt32) : Kern UInt32 := do
  let n ← getVnode sv
  if block ≠ 0 then do
    if ← sfsBused block then return block
    else Prog.stop (.bmapFree block fileblock n.svIno)
  else return block

/-- The walk from the level 0 block of an indirect tree, for each level. -/
def bmapWalk (sv : Ptr) (doalloc : Bool) (idblevel : Nat) (idblock : UInt32) (fileblock : Nat) :
    Kern UInt32 := do
  if idblevel = 1 then
    getBlock sv doalloc idblock (fileblock % sfsDbperidb)
  else if idblevel = 2 then do
    let block ← getBlock sv doalloc idblock (fileblock / sfsDbperidb)
    let idblock ← descend sv idblevel block
    getBlock sv doalloc idblock (fileblock % sfsDbperidb)
  else do
    let block ← getBlock sv doalloc idblock (fileblock / (sfsDbperidb * sfsDbperidb))
    let idblock ← descend sv idblevel block
    let block ← getBlock sv doalloc idblock (fileblock / sfsDbperidb)
    let idblock ← descend sv idblevel block
    getBlock sv doalloc idblock (fileblock % sfsDbperidb)

/-- `sfs_bmap`. -/
def sfsBmap (sv : Ptr) (fileblock : Nat) (doalloc : Bool) : Kern UInt32 := do
  if h : fileblock < sfsNdirect then do
    let block := (← getVnode sv).svI.sfiDirect ⟨fileblock, h⟩
    if block = 0 ∧ doalloc then do
      let block ← sfsBalloc
      modifyInode sv fun i => { i with
        sfiBlocks := i.sfiBlocks + 1
        sfiDirect := fun j => if j = ⟨fileblock, h⟩ then block else i.sfiDirect j }
      setDirty sv
      bmapReturn sv fileblock block
    else bmapReturn sv fileblock block
  else do
    let fileblock := fileblock - sfsNdirect
    let idnum := fileblock / (sfsDbperidb + sfsDbperidb * sfsDbperidb +
      sfsDbperidb * sfsDbperidb * sfsDbperidb)
    if idnum > 0 then Prog.fail .einval
    else do
      let idblevel :=
        if fileblock ≥ sfsDbperidb * sfsDbperidb + sfsDbperidb then 3
        else if fileblock ≥ sfsDbperidb then 2
        else 1
      let i := (← getVnode sv).svI
      let idblock :=
        if idblevel = 1 then i.sfiIndirect
        else if idblevel = 2 then i.sfiDoubleindirect
        else i.sfiTripleindirect
      let fileblock :=
        if idblevel = 1 then fileblock
        else if idblevel = 2 then fileblock - sfsDbperidb
        else fileblock - (sfsDbperidb * sfsDbperidb - sfsDbperidb)
      if idblock = 0 ∧ ¬doalloc then return 0
      else do
        let idblock ← loadbuffer sv idblevel idblock idblock 0
        let block ← bmapWalk sv doalloc idblevel idblock fileblock
        bmapReturn sv fileblock block

end Os161.Sfs

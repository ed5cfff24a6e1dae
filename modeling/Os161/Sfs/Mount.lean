import Os161.Sfs.VnodeOps

/-! # Mounting and syncing

`kern/fs/sfs/sfs_fs.c`: the free map I/O, `sfs_sync` and `sfs_domount`. -/
namespace Os161.Sfs
open Os161.Lib Kern

/-- Sector `j` of the map's data. -/
def mapSector (b : Bitmap) (j : Nat) : Sector := fun i => b.v (j * sfsBlocksize + i)

/-- The map with sector `j` of its data replaced. -/
def setMapSector (b : Bitmap) (j : Nat) (s : Sector) : Bitmap :=
  { b with v := fun x =>
      if h : j * 512 ≤ x ∧ x < j * 512 + 512 then s ⟨x - j * 512, by omega⟩ else b.v x }

/-- `sfs_mapio` for writing; `n` sectors remain. -/
def sfsMapio.write : (n j : Nat) → Kern Unit
  | 0, _ => pure ()
  | n + 1, j => do
    sfsWblock (fun k => mapSector k.fs.sfsFreemap j) (UInt32.ofNat (sfsMapLocation + j))
    sfsMapio.write n (j + 1)

/-- `sfs_mapio` for reading; `n` sectors remain. -/
def sfsMapio.read : (n j : Nat) → Kern Unit
  | 0, _ => pure ()
  | n + 1, j => do
    let s ← sfsRblock (UInt32.ofNat (sfsMapLocation + j))
    modifyFs fun fs => { fs with sfsFreemap := setMapSector fs.sfsFreemap j s }
    sfsMapio.read n (j + 1)

def SfsFs.bitblocks (fs : SfsFs) : Nat := sfsBitblocks fs.sfsSuper.spNblocks.toNat

/-- The loop of `sfs_sync` over the loaded vnodes; the results are ignored. -/
def sfsSync.vnodes : (n i : Nat) → Kern Unit
  | 0, _ => pure ()
  | n + 1, i => do
    match (← getFs).sfsVnodes[i]? with
    | none => Prog.stop .arrayGetguy
    | some sv => do
      let _ ← (vopFsync sv).attempt
      sfsSync.vnodes n (i + 1)

def sfsSync : Kern Unit := do
  sfsSync.vnodes (← getFs).sfsVnodes.length 0
  if (← getFs).sfsFreemapdirty then do
    sfsMapio.write (← getFs).bitblocks 0
    modifyFs fun fs => { fs with sfsFreemapdirty := false }
  else pure ()
  if (← getFs).sfsSuperdirty then do
    sfsWblock (fun k => k.fs.sfsSuper.toSector) sfsSbLocation
    modifyFs fun fs => { fs with sfsSuperdirty := false }
  else pure ()

/-- The in-memory volume name is always terminated. -/
def SfsSuper.terminated (p : SfsSuper) : SfsSuper :=
  { p with spVolname := fun i => if i = 31 then 0 else p.spVolname i }

/-- `sfs_domount` on the device of the current file system structure; the
structure it builds takes that one's place. -/
def sfsDomount : Kern Unit := do
  if ← kmalloc then
    if ← kmalloc then do
      modifyFs fun fs => { fs with sfsVnodes := [] }
      let s ← sfsRblock sfsSbLocation
      let super := SfsSuper.ofSector s
      if super.spMagic ≠ sfsMagic then Prog.fail .einval
      else do
        let super := super.terminated
        modifyFs fun fs => { fs with sfsSuper := super }
        if ← kmalloc then
          if ← kmalloc then do
            modifyFs fun fs =>
              { fs with sfsFreemap := bitmapCreate (sfsBitmapsize super.spNblocks.toNat) }
            sfsMapio.read (← getFs).bitblocks 0
            modifyFs fun fs => { fs with sfsSuperdirty := false, sfsFreemapdirty := false }
          else Prog.fail .enomem
        else Prog.fail .enomem
    else Prog.fail .enomem
  else Prog.fail .enomem

end Os161.Sfs

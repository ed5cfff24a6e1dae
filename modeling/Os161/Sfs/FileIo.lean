import Os161.Sfs.Bmap

/-! # File-level I/O

`sfs_partialio`, `sfs_blockio`, `sfs_io` and `sfs_truncate`. Functions that
change the caller's uio hand it back together with their result code. -/
namespace Os161.Sfs
open Os161.Lib Kern

/-- The block a partial transfer works on; a hole is read as zeros. -/
def sfsPartialio.load (sv : Ptr) (uio : Uio) (fileblock : Nat) : Kern (UInt32 × Sector) := do
  let doalloc : Bool := uio.uioRw = .uioWrite
  let diskblock ← sfsBmap sv fileblock doalloc
  if diskblock = 0 then
    if uio.uioRw = .uioRead then return (diskblock, Sector.zero) else Prog.stop .partialioHole
  else do
    let s ← sfsRblock diskblock
    return (diskblock, s)

/-- The transfer into or out of the loaded block, and writing it back. -/
def sfsPartialio.move (uio : Uio) (skipstart len : Nat) (diskblock : UInt32) (s : Sector) :
    Kern (Uio × Result) := do
  modifyBufs fun b => { b with iobuf := s }
  -- a negative offset makes `iobuf+skipstart` point outside the buffer
  if len > 0 ∧ skipstart + len > sfsBlocksize then Prog.stop .iobufIndex
  else do
    let (moved, uio, result) ← uiomove (s.bytes.drop skipstart) len uio
    match result with
    | some e => return (uio, some e)
    | none => do
      modifyBufs fun b => { b with iobuf := Sector.ofBytes (s.bytes.take skipstart ++ moved) }
      if uio.uioRw = .uioWrite then do
        Prog.mark (.writeBack .iobuf)
        let written ← (sfsWblock (fun k => k.bufs.iobuf) diskblock).attempt
        Prog.mark (.released .iobuf)
        match written with
        | .error e => return (uio, some e)
        | .ok _ => return (uio, none)
      else return (uio, none)

def sfsPartialio (sv : Ptr) (uio : Uio) (skipstart len : Nat) : Kern (Uio × Result) := do
  if u32 (skipstart + len) > sfsBlocksize then Prog.stop .partialioLen
  else do
    let fileblock := u32 (uio.uioOffset.tdiv sfsBlocksize)
    match ← (sfsPartialio.load sv uio fileblock).attempt with
    | .error e => return (uio, some e)
    | .ok (diskblock, s) => sfsPartialio.move uio skipstart len diskblock s

/-- The transfer of a whole block at its offset on disk, after which the file's
offset and what remained come back. -/
def sfsBlockio.transfer (uio : Uio) (diskoff : Int) : Kern (Uio × Result) := do
  let saveoff := uio.uioOffset
  let saveres := uio.uioResid
  let diskres := sfsBlocksize
  let (uio, result) ← sfsRwblock { uio with uioOffset := diskoff, uioResid := diskres }
  let uioOffset := i32 (i32 (uio.uioOffset - diskoff) + saveoff)
  let uioResid := u32 (uio.uioResid - diskres + saveres)
  return ({ uio with uioOffset := uioOffset, uioResid := uioResid }, result)

def sfsBlockio (sv : Ptr) (uio : Uio) : Kern (Uio × Result) := do
  let doalloc : Bool := uio.uioRw = .uioWrite
  let fileblock := u32 (uio.uioOffset.tdiv sfsBlocksize)
  match ← (sfsBmap sv fileblock doalloc).attempt with
  | .error e => return (uio, some e)
  | .ok diskblock =>
    if diskblock = 0 then
      if uio.uioRw = .uioRead then uiomovezeros sfsBlocksize uio else Prog.stop .blockioHole
    else if uio.uioResid < sfsBlocksize then Prog.stop .blockioResid
    else sfsBlockio.transfer uio (i32 (diskblock.toNat * sfsBlocksize))

/-- The run of whole blocks in `sfs_io`; `n` blocks remain. -/
def sfsIo.blocks (sv : Ptr) : (n : Nat) → Uio → Kern (Uio × Result)
  | 0, uio => pure (uio, none)
  | n + 1, uio => do
    let (uio, result) ← sfsBlockio sv uio
    match result with
    | some e => return (uio, some e)
    | none => sfsIo.blocks sv n uio

/-- What `sfs_io` does after the leading partial block. -/
def sfsIo.aligned (sv : Ptr) (uio : Uio) : Kern (Uio × Result) := do
  if uio.uioResid = 0 then return (uio, none)
  else if uio.uioOffset.tmod sfsBlocksize ≠ 0 then Prog.stop .ioAligned
  else do
    let nblocks := uio.uioResid / sfsBlocksize
    let (uio, result) ← sfsIo.blocks sv nblocks uio
    match result with
    | some e => return (uio, some e)
    | none =>
      if uio.uioResid ≥ sfsBlocksize then Prog.stop .ioTail
      else if uio.uioResid > 0 then sfsPartialio sv uio 0 uio.uioResid
      else return (uio, none)

/-- The part of `sfs_io` that moves data, up to the label `out`. -/
def sfsIo.body (sv : Ptr) (uio : Uio) : Kern (Uio × Result) := do
  let blkoff := u32 (uio.uioOffset.tmod sfsBlocksize)
  if blkoff ≠ 0 then do
    let skip := blkoff
    let len := min (u32 ((sfsBlocksize : Int) - blkoff)) uio.uioResid
    let (uio, result) ← sfsPartialio sv uio skip len
    match result with
    | some e => return (uio, some e)
    | none => sfsIo.aligned sv uio
  else sfsIo.aligned sv uio

/-- The code at the label `out`. -/
def sfsIo.out (sv : Ptr) (uio : Uio) (extraresid : Nat) (result : Result) :
    Kern (Uio × Result) := do
  let n ← getVnode sv
  if uio.uioRw = .uioWrite ∧ uio.uioOffset > i32 n.svI.sfiSize.toNat then do
    modifyInode sv fun i => { i with sfiSize := UInt32.ofNat (u32 uio.uioOffset) }
    setDirty sv
  else pure ()
  return ({ uio with uioResid := u32 (uio.uioResid + extraresid) }, result)

/-- `sfs_io`. -/
def sfsIo (sv : Ptr) (uio : Uio) : Kern (Uio × Result) := do
  let size := i32 (← getVnode sv).svI.sfiSize.toNat
  let endpos := i32 (uio.uioOffset + uio.uioResid)
  if uio.uioRw = .uioRead ∧ uio.uioOffset ≥ size then return (uio, none)
  else if uio.uioRw = .uioRead ∧ endpos > size then do
    let extraresid := u32 (endpos - size)
    if uio.uioResid > extraresid then do
      let (uio, result) ← sfsIo.body sv { uio with uioResid := uio.uioResid - extraresid }
      sfsIo.out sv uio extraresid result
    else Prog.stop .ioExtraresid
  else do
    let (uio, result) ← sfsIo.body sv uio
    sfsIo.out sv uio 0 result

/-! ## Truncation -/

/-- The loop over the direct blocks. -/
def sfsTruncate.direct (sv : Ptr) (blocklen : Nat) : List (Fin 15) → Kern Unit
  | [] => pure ()
  | i :: rest => do
    let block := (← getVnode sv).svI.sfiDirect i
    if i.val ≥ blocklen ∧ block ≠ 0 then do
      sfsBfree block
      modifyInode sv fun n => { n with
        sfiBlocks := n.sfiBlocks - 1
        sfiDirect := fun j => if j = i then 0 else n.sfiDirect j }
      setDirty sv
      sfsTruncate.direct sv blocklen rest
    else sfsTruncate.direct sv blocklen rest

/-- The loop over the entries of the indirect block, with the flags
`hasnonzero` and `iddirty`. -/
def sfsTruncate.entries (sv : Ptr) (blocklen baseblock : Nat) :
    List (Fin 128) → (hasnonzero iddirty : Bool) → Kern (Bool × Bool)
  | [], hasnonzero, iddirty => pure (hasnonzero, iddirty)
  | j :: rest, hasnonzero, iddirty => do
    let entry := (← getKernel).bufs.idbuf j
    if blocklen < baseblock + j ∧ entry ≠ 0 then do
      sfsBfree entry
      modifyInode sv fun n => { n with sfiBlocks := n.sfiBlocks - 1 }
      modifyBufs fun b => { b with idbuf := fun j' => if j' = j then 0 else b.idbuf j' }
      sfsTruncate.entries sv blocklen baseblock rest hasnonzero true
    else
      sfsTruncate.entries sv blocklen baseblock rest (hasnonzero || entry ≠ 0) iddirty

/-- Giving up the indirect block, and with it both deeper trees. -/
def sfsTruncate.dropIndirect (sv : Ptr) (idblock : UInt32) : Kern Unit := do
  sfsBfree idblock
  modifyInode sv fun n => { n with sfiBlocks := n.sfiBlocks - 1, sfiIndirect := 0 }
  modifyInode sv fun n =>
    if n.sfiDoubleindirect ≠ 0 then
      { n with sfiBlocks := n.sfiBlocks - 1, sfiDoubleindirect := 0 }
    else n
  modifyInode sv fun n =>
    if n.sfiTripleindirect ≠ 0 then
      { n with sfiBlocks := n.sfiBlocks - 1, sfiTripleindirect := 0 }
    else n
  setDirty sv

/-- The block count `sfs_truncate` computes from a length. -/
def truncBlocklen (len : Int) : Nat := u32 ((i32 (len + sfsBlocksize - 1)).tdiv sfsBlocksize)

/-- `sfs_truncate`. -/
def sfsTruncate (sv : Ptr) (len : Int) : Kern Unit := do
  let blocklen := truncBlocklen len
  sfsTruncate.direct sv blocklen (List.finRange 15)
  let idblock := (← getVnode sv).svI.sfiIndirect
  let baseblock := sfsNdirect
  let highblock := baseblock + sfsDbperidb - 1
  if blocklen < highblock ∧ idblock ≠ 0 then do
    let s ← sfsRblock idblock
    modifyBufs fun b => { b with idbuf := s.words }
    let (hasnonzero, iddirty) ←
      sfsTruncate.entries sv blocklen baseblock (List.finRange 128) false false
    if ¬hasnonzero then sfsTruncate.dropIndirect sv idblock
    else if iddirty then sfsWblock (fun k => Sector.ofWords k.bufs.idbuf) idblock
    else pure ()
  else pure ()
  modifyInode sv fun n => { n with sfiSize := UInt32.ofNat (u32 len) }
  setDirty sv

end Os161.Sfs

import Os161.Sfs.Kernel

/-! # uio transfers and block I/O

`uiomove` and `uiomovezeros` (`kern/userprog/uio.c`), the disk driver's
`lhd_io` (`kern/dev/lamebus/lhd.c`) and the retrying block layer of
`kern/fs/sfs/sfs_io.c`. -/
namespace Os161.Sfs
open Os161.Lib Kern

inductive UioRw where
  | uioRead | uioWrite
  deriving DecidableEq

/-- `struct uio`. The memory behind the base is read when bytes are moved out
of it, so it is a function of the kernel state; bytes moved into it are
collected in `iovOut`. `iovMapped` counts the bytes that can be accessed:
beyond it `copyin` and `copyout` return `EFAULT`. -/
@[ext] structure Uio where
  iovBase : Kernel → List UInt8
  iovPos : Nat
  iovLen : Nat
  iovOut : List UInt8
  iovMapped : Nat
  uioOffset : Int
  uioResid : Nat
  uioRw : UioRw

namespace Uio

/-- The bookkeeping after `chunk` went through the uio. -/
def advance (u : Uio) (chunk : List UInt8) : Uio :=
  { u with
    iovPos := u.iovPos + chunk.length
    iovLen := u.iovLen - chunk.length
    iovOut := if u.uioRw = .uioRead then u.iovOut ++ chunk else u.iovOut
    uioOffset := i32 (u.uioOffset + chunk.length)
    uioResid := u32 (u.uioResid - chunk.length) }

/-- The next `n` bytes at the base. -/
def source (u : Uio) (k : Kernel) (n : Nat) : List UInt8 := ((u.iovBase k).drop u.iovPos).take n

end Uio

/-- The transfer loop. `moved` is the part of `ptr` already gone through; every
round moves at least one byte, so the initial `n` is fuel enough. -/
def uiomove.loop (k : Kernel) : (fuel : Nat) → (moved ptr : List UInt8) → (n : Nat) → Uio →
    Except Stop (List UInt8 × Uio × Result)
  | 0, moved, ptr, _, uio => .ok (moved ++ ptr, uio, none)
  | fuel + 1, moved, ptr, n, uio =>
    if n > 0 ∧ uio.uioResid > 0 then
      let size := min uio.iovLen n
      if size = 0 then .error .uiomoveSize
      else if uio.iovPos + size > uio.iovMapped then .ok (moved ++ ptr, uio, some .efault)
      else
        let chunk := if uio.uioRw = .uioRead then ptr.take size else uio.source k size
        uiomove.loop k fuel (moved ++ chunk) (ptr.drop size) (n - size) (uio.advance chunk)
    else .ok (moved ++ ptr, uio, none)

/-- `uiomove(ptr, n, uio)`; hands back the memory at `ptr` as well. -/
def uiomove (ptr : List UInt8) (n : Nat) (uio : Uio) : Kern (List UInt8 × Uio × Result) := do
  let k ← getKernel
  ofExcept (uiomove.loop k n [] ptr n uio)

def uiomovezeros.loop : (fuel : Nat) → (n : Nat) → Uio → Kern (Uio × Result)
  | 0, _, uio => pure (uio, none)
  | fuel + 1, n, uio =>
    if n > 0 then do
      let amt := min 16 n
      let (_, uio, result) ← uiomove (List.replicate 16 0) amt uio
      match result with
      | some e => pure (uio, some e)
      | none => uiomovezeros.loop fuel (n - amt) uio
    else pure (uio, none)

def uiomovezeros (n : Nat) (uio : Uio) : Kern (Uio × Result) :=
  if uio.uioRw = .uioRead then uiomovezeros.loop n n uio else Prog.stop .uiomovezerosRw

/-- `mk_kuio`: a transfer to or from kernel memory. -/
def mkKuio (kbuf : Kernel → List UInt8) (len : Nat) (pos : Int) (rw : UioRw) : Uio where
  iovBase := kbuf
  iovPos := 0
  iovLen := len
  iovOut := []
  iovMapped := len
  uioOffset := pos
  uioResid := len
  uioRw := rw

/-! ## The disk driver -/

/-- One sector after another; `n` of them remain. -/
def lhdIo.loop (sector : Nat) : (n i : Nat) → Uio → Kern (Uio × Result)
  | 0, _, uio => pure (uio, none)
  | n + 1, i, uio => do
    -- wait until nobody else is using the device
    let _ ← diskRequest .wait
    match uio.uioRw with
    | .uioWrite => do
      let (buf, uio, result) ← uiomove Sector.zero.bytes 512 uio
      match result with
      | some e => pure (uio, some e)
      | none => do
        let resp ← diskRequest (.write (sector + i) (Sector.ofBytes buf))
        match resp.result with
        | some e => pure (uio, some e)
        | none => lhdIo.loop sector n (i + 1) uio
    | .uioRead => do
      let resp ← diskRequest (.read (sector + i))
      match resp.result with
      | some e => pure (uio, some e)
      | none => do
        let (_, uio, result) ← uiomove resp.data.bytes 512 uio
        match result with
        | some e => pure (uio, some e)
        | none => lhdIo.loop sector n (i + 1) uio

def lhdIo (uio : Uio) : Kern (Uio × Result) := do
  let fs ← getFs
  let sector := u32 (uio.uioOffset.tdiv 512)
  let sectoff := u32 (uio.uioOffset.tmod 512)
  let len := uio.uioResid / 512
  let lenoff := uio.uioResid % 512
  if sectoff ≠ 0 ∨ lenoff ≠ 0 then pure (uio, some .einval)
  else if u32 (sector + len) > fs.dBlocks then pure (uio, some .einval)
  else lhdIo.loop sector len 0 uio

/-! ## sfs_io.c -/

/-- The retry loop of `sfs_rwblock`: `n` retries remain. -/
def sfsRwblock.retry : (n : Nat) → Uio → Kern (Uio × Result)
  | n, uio => do
    let (uio, result) ← lhdIo uio
    if result = some .einval then Prog.stop .dIoEinval
    else if result = some .eio then
      match n with
      | 0 => pure (uio, some .eio)
      | n + 1 => sfsRwblock.retry n uio
    else pure (uio, result)

def sfsRwblock (uio : Uio) : Kern (Uio × Result) := sfsRwblock.retry 10 uio

/-- The offset `SFSUIO` computes for a block. -/
def sfsuioOffset (block : UInt32) : Int := i32 (i32 block.toNat * 512)

/-- `sfs_rblock`; the sector is handed back instead of stored. -/
def sfsRblock (block : UInt32) : Kern Sector := do
  let (uio, result) ← sfsRwblock (mkKuio (fun _ => []) sfsBlocksize (sfsuioOffset block) .uioRead)
  check result
  return Sector.ofBytes uio.iovOut

/-- `sfs_wblock`; `data` reads the caller's buffer. -/
def sfsWblock (data : Kernel → Sector) (block : UInt32) : Kern Unit := do
  let (_, result) ← sfsRwblock
    (mkKuio (fun k => (data k).bytes) sfsBlocksize (sfsuioOffset block) .uioWrite)
  check result

end Os161.Sfs

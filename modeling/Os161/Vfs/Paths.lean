import Os161.Lib.Prog
import Os161.Vfs.KnownDevs

/-! # Operations on paths

`vfspath.c`, `vfslookup.c`, `vfscwd.c` and the counts of `vnode.c`. What file systems and user
memory answer comes from outside. `D` are the devices, `V` the vnodes and `F` the file
systems. -/
namespace Os161.Vfs
open Os161.Lib

/-- The counts of the vnodes, the file system each is on, the current directory of the thread,
`bootfs_vnode`, and the table of devices. -/
structure State (D V F : Type) where
  vnRefcount : V → Nat
  vnOpencount : V → Nat
  vnFs : V → Option F
  getvolname : F → Option Name
  tCwd : Option V
  bootfsVnode : Option V
  knowndevs : Knowndevs D V F

/-- Failed assertions: the reference count in `vnode_decref` or `vnode_kill`, the open count in
`vnode_decopen` or `vnode_kill`, a current directory without a file system, a file system
without a name, and the checks of `vfs_getroot`. -/
inductive Stop where
  | refcount
  | opencount
  | nullFs
  | nullName
  | knowndev
  deriving DecidableEq

/-- The operations of file systems, and `uiomove`. -/
inductive Req (V F : Type) where
  | getroot (fs : F)
  | lookup (dir : V) (path : Name)
  | lookparent (dir : V) (path : Name) (buflen : Nat)
  | creat (dir : V) (name : Name) (excl : Bool)
  | «open» (vn : V) (flags : UInt32)
  | close (vn : V)
  | reclaim (vn : V)
  | truncate (vn : V) (len : Nat)
  | remove (dir : V) (name : Name)
  | rename (olddir : V) (oldname : Name) (newdir : V) (newname : Name)
  | link (dir : V) (name : Name) (file : V)
  | gettype (vn : V)
  | namefile (vn : V)
  | uiomove (bytes : Name)

/-- A result code, with what the operation hands back: a vnode, a name, or whether the vnode is a
directory. -/
structure Resp (V : Type) where
  result : Option Errno
  vnode : V
  name : Name
  isdir : Bool

@[reducible] def vfsSig (D V F : Type) : Sig where
  State := State D V F
  Err := Empty
  Stop := Stop
  Req := Req V F
  Resp := Resp V
  Ev := Empty

abbrev Op (D V F : Type) := Prog (vfsSig D V F)

section Code

variable {D V F : Type} [DecidableEq V] [DecidableEq F]

/-! ## vnode.c -/

def vnodeIncref (vn : V) : Op D V F Unit :=
  Prog.modifyS fun s =>
    { s with vnRefcount := fun v => if v = vn then s.vnRefcount v + 1 else s.vnRefcount v }

/-- `vnode_kill`, at the end of a reclaim that succeeds. -/
def vnodeKill (vn : V) : Op D V F Unit := do
  let s ← Prog.getS
  if s.vnRefcount vn ≠ 1 then Prog.stop .refcount
  else if s.vnOpencount vn ≠ 0 then Prog.stop .opencount
  else Prog.setS { s with vnRefcount := fun v => if v = vn then 0 else s.vnRefcount v }

/-- `VOP_RECLAIM`, which succeeds. -/
def vopReclaim (vn : V) : Op D V F Unit := do
  let _ ← Prog.request (.reclaim vn)
  vnodeKill vn

def vnodeDecref (vn : V) : Op D V F Unit := do
  let s ← Prog.getS
  if s.vnRefcount vn = 0 then Prog.stop .refcount
  else if s.vnRefcount vn > 1 then
    Prog.setS { s with
      vnRefcount := fun v => if v = vn then s.vnRefcount v - 1 else s.vnRefcount v }
  else vopReclaim vn

def vnodeIncopen (vn : V) : Op D V F Unit :=
  Prog.modifyS fun s =>
    { s with vnOpencount := fun v => if v = vn then s.vnOpencount v + 1 else s.vnOpencount v }

def vnodeDecopen (vn : V) : Op D V F Unit := do
  let s ← Prog.getS
  if s.vnOpencount vn = 0 then Prog.stop .opencount
  else do
    Prog.setS { s with
      vnOpencount := fun v => if v = vn then s.vnOpencount v - 1 else s.vnOpencount v }
    if s.vnOpencount vn - 1 > 0 then pure ()
    else do
      let _ ← Prog.request (.close vn)
      pure ()

/-! ## File systems -/

/-- An operation that hands back a vnode. It adds a reference to it. -/
def vopGive (r : Req V F) : Op D V F (Except Errno (V × Name)) := do
  let resp ← Prog.request r
  match resp.result with
  | some e => pure (.error e)
  | none => do
    vnodeIncref resp.vnode
    pure (.ok (resp.vnode, resp.name))

/-- An operation that hands back a result code. -/
def vopDo (r : Req V F) : Op D V F (Option Errno) := do
  let resp ← Prog.request r
  pure resp.result

/-- `FSOP_GETROOT`, which does not fail. -/
def fsopGetroot (fs : F) : Op D V F V := do
  let resp ← Prog.request (.getroot fs)
  vnodeIncref resp.vnode
  pure resp.vnode

/-! ## vfscwd.c, vfslist.c -/

def vfsGetcurdir : Op D V F (Except Errno V) := do
  let s ← Prog.getS
  match s.tCwd with
  | some cwd => do
    vnodeIncref cwd
    pure (.ok cwd)
  | none => pure (.error .ENOENT)

/-- `vfs_getroot` on the table of devices. -/
def vfsGetrootVnode (devname : Name) : Op D V F (Except Errno V) := do
  let s ← Prog.getS
  match vfsGetroot s.getvolname devname s.knowndevs with
  | .getroot fs => do
    let vn ← fsopGetroot fs
    pure (.ok vn)
  | .device vn => do
    vnodeIncref vn
    pure (.ok vn)
  | .error e => pure (.error e)
  | .assertion => Prog.stop .knowndev

def vfsGetdevname (fs : F) : Knowndevs D V F → Option Name
  | [] => none
  | kd :: rest => if kd.kdFs = some fs then some kd.kdName else vfsGetdevname fs rest

/-! ## vfslookup.c -/

/-- The first colon or slash of a path. -/
def firstSeparator : Name → Nat → Option (Nat × UInt8)
  | [], _ => none
  | c :: rest, i => if c = 58 ∨ c = 47 then some (i, c) else firstSeparator rest (i + 1)

/-- What is left after the separator at `i` and the slashes that follow it. -/
def subpathAfter (path : Name) (i : Nat) : Name := (path.drop (i + 1)).dropWhile (· = 47)

def getdevice (path : Name) : Op D V F (Except Errno (Name × V)) := do
  match firstSeparator path 0 with
  | none => do
    let result ← vfsGetcurdir
    pure (result.map fun vn => (path, vn))
  | some (i, c) =>
    if c = 47 ∧ i ≠ 0 then do
      let result ← vfsGetcurdir
      pure (result.map fun vn => (path, vn))
    else if c = 58 ∧ i > 0 then do
      let result ← vfsGetrootVnode (path.take i)
      pure (result.map fun vn => (subpathAfter path i, vn))
    else if c = 47 then do
      let s ← Prog.getS
      match s.bootfsVnode with
      | none => pure (.error .ENOENT)
      | some vn => do
        vnodeIncref vn
        pure (.ok (subpathAfter path 0, vn))
    else do
      match ← vfsGetcurdir with
      | .error e => pure (.error e)
      | .ok vn => do
        let s ← Prog.getS
        match s.vnFs vn with
        | none => Prog.stop .nullFs
        | some fs => do
          let startvn ← fsopGetroot fs
          vnodeDecref vn
          pure (.ok (subpathAfter path 0, startvn))

def vfsLookparent (path : Name) (buflen : Nat) : Op D V F (Except Errno (V × Name)) := do
  match ← getdevice path with
  | .error e => pure (.error e)
  | .ok (path, startvn) => do
    let result ← if path.length = 0 then pure (.error .EINVAL)
      else vopGive (.lookparent startvn path buflen)
    vnodeDecref startvn
    pure result

def vfsLookup (path : Name) : Op D V F (Except Errno V) := do
  match ← getdevice path with
  | .error e => pure (.error e)
  | .ok (path, startvn) =>
    if path.length = 0 then pure (.ok startvn)
    else do
      let result ← vopGive (.lookup startvn path)
      vnodeDecref startvn
      pure (result.map Prod.fst)

/-! ## vfspath.c -/

def nameMax : Nat := 255
def oRdonly : UInt32 := 0
def oWronly : UInt32 := 1
def oRdwr : UInt32 := 2
def oCreat : UInt32 := 4
def oExcl : UInt32 := 8
def oTrunc : UInt32 := 16
def oAccmode : UInt32 := 3

/-- The vnode that `vfs_open` opens. -/
def openTarget (path : Name) (openflags : UInt32) : Op D V F (Except Errno V) :=
  if openflags &&& oCreat ≠ 0 then do
    match ← vfsLookparent path (nameMax + 1) with
    | .error e => pure (.error e)
    | .ok (dir, name) => do
      let result ← vopGive (.creat dir name (openflags &&& oExcl ≠ 0))
      vnodeDecref dir
      pure (result.map Prod.fst)
  else vfsLookup path

/-- The truncation in `vfs_open`. -/
def openTrunc (vn : V) (openflags : UInt32) (canwrite : Bool) : Op D V F (Except Errno V) :=
  if openflags &&& oTrunc ≠ 0 then do
    let result ← if canwrite then vopDo (.truncate vn 0) else pure (some .EINVAL)
    match result with
    | some e => do
      vnodeDecopen vn
      vnodeDecref vn
      pure (.error e)
    | none => pure (.ok vn)
  else pure (.ok vn)

def vfsOpen (path : Name) (openflags : UInt32) : Op D V F (Except Errno V) := do
  let how := openflags &&& oAccmode
  if how = oRdonly ∨ how = oWronly ∨ how = oRdwr then do
    let canwrite := how ≠ oRdonly
    match ← openTarget path openflags with
    | .error e => pure (.error e)
    | .ok vn => do
      match ← vopDo (.open vn openflags) with
      | some e => do
        vnodeDecref vn
        pure (.error e)
      | none => do
        vnodeIncopen vn
        openTrunc vn openflags canwrite
  else pure (.error .EINVAL)

def vfsClose (vn : V) : Op D V F Unit := do
  vnodeDecopen vn
  vnodeDecref vn

def vfsRemove (path : Name) : Op D V F (Option Errno) := do
  match ← vfsLookparent path (nameMax + 1) with
  | .error e => pure (some e)
  | .ok (dir, name) => do
    let result ← vopDo (.remove dir name)
    vnodeDecref dir
    pure result

/-- Neither vnode is on a file system of its own, or they are on different ones. -/
def crossDevice (s : State D V F) (v v' : V) : Bool :=
  (s.vnFs v).isNone || (s.vnFs v').isNone || s.vnFs v ≠ s.vnFs v'

def vfsRename (oldpath newpath : Name) : Op D V F (Option Errno) := do
  match ← vfsLookparent oldpath (nameMax + 1) with
  | .error e => pure (some e)
  | .ok (olddir, oldname) => do
    match ← vfsLookparent newpath (nameMax + 1) with
    | .error e => do
      vnodeDecref olddir
      pure (some e)
    | .ok (newdir, newname) => do
      let s ← Prog.getS
      if crossDevice s olddir newdir then do
        vnodeDecref newdir
        vnodeDecref olddir
        pure (some .EXDEV)
      else do
        let result ← vopDo (.rename olddir oldname newdir newname)
        vnodeDecref newdir
        vnodeDecref olddir
        pure result

def vfsLink (oldpath newpath : Name) : Op D V F (Option Errno) := do
  match ← vfsLookup oldpath with
  | .error e => pure (some e)
  | .ok oldfile => do
    match ← vfsLookparent newpath (nameMax + 1) with
    | .error e => do
      vnodeDecref oldfile
      pure (some e)
    | .ok (newdir, newname) => do
      let s ← Prog.getS
      if crossDevice s oldfile newdir then do
        vnodeDecref newdir
        vnodeDecref oldfile
        pure (some .EXDEV)
      else do
        let result ← vopDo (.link newdir newname oldfile)
        vnodeDecref newdir
        vnodeDecref oldfile
        pure result

/-! ## The current directory -/

def vfsSetcurdir (dir : V) : Op D V F (Option Errno) := do
  let resp ← Prog.request (.gettype dir)
  match resp.result with
  | some e => pure (some e)
  | none =>
    if !resp.isdir then pure (some .ENOTDIR)
    else do
      let s ← Prog.getS
      Prog.setS { s with tCwd := some dir }
      match s.tCwd with
      | some old => do
        vnodeDecref old
        pure none
      | none => pure none

def vfsChdir (path : Name) : Op D V F (Option Errno) := do
  match ← vfsLookup path with
  | .error e => pure (some e)
  | .ok vn => do
    match ← vfsSetcurdir vn with
    | some e => do
      vnodeDecref vn
      pure (some e)
    | none => pure none

/-- The name, the colon and the path in `vfs_getcwd`, up to the first error. -/
def getcwdMoves (cwd : V) (name : Name) : Op D V F (Option Errno) := do
  match ← vopDo (.uiomove name) with
  | some e => pure (some e)
  | none => do
    match ← vopDo (.uiomove [58]) with
    | some e => pure (some e)
    | none => vopDo (.namefile cwd)

def vfsGetcwd : Op D V F (Option Errno) := do
  match ← vfsGetcurdir with
  | .error e => pure (some e)
  | .ok cwd => do
    let s ← Prog.getS
    match s.vnFs cwd with
    | none => Prog.stop .nullFs
    | some fs =>
      match (s.getvolname fs).or (vfsGetdevname fs s.knowndevs) with
      | none => Prog.stop .nullName
      | some name => do
        let result ← getcwdMoves cwd name
        vnodeDecref cwd
        pure result

end Code

end Os161.Vfs

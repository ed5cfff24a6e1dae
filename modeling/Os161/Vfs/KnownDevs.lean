import Os161.Lib.Runs

/-! # The table of known devices

`vfslist.c`: devices and file systems by name. An entry has the name of the device, the name
of the raw device, and the volume name of the file system that is mounted. -/
namespace Os161.Vfs
open Os161.Runs

/-- A C string, without the terminating zero. -/
abbrev Name := List UInt8

inductive Errno where
  | EINVAL | ENOMEM | ENOENT | ENOTDIR | EEXIST | EXDEV | ENXIO | ENODEV | EBUSY
  | other (code : Int)
  deriving DecidableEq

/-- `struct knowndev` over devices, vnodes and file systems. -/
structure Knowndev (D V F : Type) where
  kdName : Name
  kdRawname : Option Name
  kdDevice : Option D
  kdVnode : V
  kdFs : Option F
  deriving DecidableEq

abbrev Knowndevs (D V F : Type) := List (Knowndev D V F)

section Code

variable {D V F : Type}

def mkrawname (name : Name) : Name := name ++ [114, 97, 119]

def samestring (a b : Option Name) : Bool :=
  match a, b with
  | some a, some b => a = b
  | _, _ => false

def samestring3 (a b c d : Option Name) : Bool :=
  samestring a b || samestring a c || samestring a d

/-- `FSOP_GETVOLNAME` of the file system of an entry. -/
def Knowndev.volname (getvolname : F → Option Name) (kd : Knowndev D V F) : Option Name :=
  kd.kdFs.bind getvolname

def badnames (getvolname : F → Option Name) (n1 n2 n3 : Option Name) :
    Knowndevs D V F → Bool
  | [] => false
  | kd :: rest =>
    if kd.kdFs.isSome && samestring3 (kd.volname getvolname) n1 n2 n3 then true
    else if samestring3 kd.kdRawname n1 n2 n3 || samestring3 (some kd.kdName) n1 n2 n3 then true
    else badnames getvolname n1 n2 n3 rest

/-- What the allocations of a call of `vfs_doadd` give. -/
structure Allocs (V : Type) where
  kstrdup : Bool
  mkrawname : Bool
  devCreateVnode : Option V
  kmalloc : Bool
  arrayAdd : Option Errno

def vfsDoadd (getvolname : F → Option Name) (dname : Name) (mountable : Bool) (dev : Option D)
    (fs : Option F) (mem : Allocs V) (knowndevs : Knowndevs D V F) :
    Option Errno × Knowndevs D V F :=
  if !mem.kstrdup then (some .ENOMEM, knowndevs)
  else if mountable && !mem.mkrawname then (some .ENOMEM, knowndevs)
  else
    let rawname := if mountable then some (mkrawname dname) else none
    match mem.devCreateVnode with
    | none => (some .ENOMEM, knowndevs)
    | some vnode =>
      if !mem.kmalloc then (some .ENOMEM, knowndevs)
      else if badnames getvolname (some dname) rawname (fs.bind getvolname) knowndevs then
        (some .EEXIST, knowndevs)
      else
        match mem.arrayAdd with
        | some e => (some e, knowndevs)
        | none => (none, knowndevs ++ [⟨dname, rawname, dev, vnode, fs⟩])

def vfsAdddev (getvolname : F → Option Name) (devname : Name) (dev : D) (mountable : Bool) :
    Allocs V → Knowndevs D V F → Option Errno × Knowndevs D V F :=
  vfsDoadd getvolname devname mountable (some dev) none

def vfsAddfs (getvolname : F → Option Name) (devname : Name) (fs : F) :
    Allocs V → Knowndevs D V F → Option Errno × Knowndevs D V F :=
  vfsDoadd getvolname devname false none (some fs)

/-- The first mountable device of that name. -/
def findmount (devname : Name) (knowndevs : Knowndevs D V F) : Option Nat :=
  knowndevs.findIdx? fun kd => kd.kdRawname.isSome && devname = kd.kdName

/-- The entry at `i` gets another file system, or none. -/
def setFs (knowndevs : Knowndevs D V F) (i : Nat) (fs : Option F) : Knowndevs D V F :=
  knowndevs.modify i fun kd => { kd with kdFs := fs }

/-- The entry that `vfs_mount` would mount on: it is found and has no file system. -/
def mountpoint (devname : Name) (knowndevs : Knowndevs D V F) : Except Errno Nat :=
  match findmount devname knowndevs with
  | none => .error .ENODEV
  | some i => if ((knowndevs[i]?).bind (·.kdFs)).isSome then .error .EBUSY else .ok i

/-- `mounted` is what `mountfunc` hands back. -/
def vfsMount (devname : Name) (mounted : Except Errno F) (knowndevs : Knowndevs D V F) :
    Option Errno × Knowndevs D V F :=
  match mountpoint devname knowndevs with
  | .error e => (some e, knowndevs)
  | .ok i =>
    match mounted with
    | .error e => (some e, knowndevs)
    | .ok fs => (none, setFs knowndevs i (some fs))

/-- `sync` and `unmount` are what the operations of the file system hand back. -/
def vfsUnmount (devname : Name) (sync unmount : Option Errno) (knowndevs : Knowndevs D V F) :
    Option Errno × Knowndevs D V F :=
  match findmount devname knowndevs with
  | none => (some .ENODEV, knowndevs)
  | some i =>
    if ((knowndevs[i]?).bind (·.kdFs)).isNone then (some .EINVAL, knowndevs)
    else
      match sync with
      | some e => (some e, knowndevs)
      | none =>
        match unmount with
        | some e => (some e, knowndevs)
        | none => (none, setFs knowndevs i none)

/-- What `vfs_getroot` hands back: the root of a file system, a device, an error, or a failed
assertion. -/
inductive Root (V F : Type) where
  | getroot (fs : F)
  | device (vnode : V)
  | error (e : Errno)
  | assertion
  deriving DecidableEq

/-- One round of the loop in `vfs_getroot`; nothing when it goes on to the next entry. -/
def Knowndev.round (getvolname : F → Option Name) (devname : Name) (kd : Knowndev D V F) :
    Option (Root V F) :=
  match kd.kdFs with
  | some fs =>
    if kd.kdName = devname ∨ getvolname fs = some devname then some (.getroot fs)
    else if kd.kdRawname = some devname then
      some (if kd.kdDevice.isSome then .device kd.kdVnode else .assertion)
    else none
  | none =>
    if kd.kdRawname.isSome ∧ kd.kdName = devname then some (.error Errno.ENXIO)
    else if kd.kdName = devname ∨ kd.kdRawname = some devname then
      some (if kd.kdDevice.isSome then .device kd.kdVnode else .assertion)
    else none

def vfsGetroot (getvolname : F → Option Name) (devname : Name) :
    Knowndevs D V F → Root V F
  | [] => .error .ENODEV
  | kd :: rest => (kd.round getvolname devname).getD (vfsGetroot getvolname devname rest)

/-! ## Runs -/

inductive Call (D V F : Type) where
  | adddev (devname : Name) (dev : D) (mountable : Bool) (mem : Allocs V)
  | addfs (devname : Name) (fs : F) (mem : Allocs V)
  | mount (devname : Name) (mounted : Except Errno F)
  | unmount (devname : Name) (sync unmount : Option Errno)

def call (getvolname : F → Option Name) (s : Knowndevs D V F) :
    Call D V F → Option Errno × Knowndevs D V F
  | .adddev devname dev mountable mem => vfsAdddev getvolname devname dev mountable mem s
  | .addfs devname fs mem => vfsAddfs getvolname devname fs mem s
  | .mount devname mounted => vfsMount devname mounted s
  | .unmount devname sync unmount => vfsUnmount devname sync unmount s

/-- The table after a call; each call is made under `knowndevs_lock`. -/
def step (getvolname : F → Option Name) (s : Knowndevs D V F) (c : Call D V F) :
    Option (Knowndevs D V F) := some (call getvolname s c).2

end Code

end Os161.Vfs

import Mathlib.Data.List.Range
import Mathlib.Logic.Function.Basic

/-! # The file table of assignment 2

`assignment2/ownSolution/file.c`. Five arrays of `FILETABLESIZE` entries and one error number
serve every program. Each function hands back, beside what it computes, the indices at which it
touches the arrays, so that an index outside of them can be seen. -/
namespace Os161.Filetable

def FILETABLESIZE : Int := 18

inductive Errno where
  | EINVAL | ESPIPE | EMFILE | ENOSYS | EBADF
  | other (n : Nat)
  deriving DecidableEq

/-- The numbers of `kern/errno.h`; all are positive. -/
def Errno.code : Errno → Int
  | .EINVAL => 1
  | .ESPIPE => 12
  | .EMFILE => 21
  | .ENOSYS => 23
  | .EBADF => 26
  | .other n => n + 1

theorem Errno.code_pos (e : Errno) : 0 < e.code := by
  cases e with
  | other n => simp only [Errno.code]; omega
  | _ => decide

/-- `EFAULT` of `kern/errno.h`. -/
def EFAULT : Errno := .other 1

/-- 2 to the 32. -/
def wordSize : Nat := 4294967296

/-- The value of a C expression of type `int` or `off_t`. -/
def toInt32 (n : Int) : Int := n.bmod wordSize

/-- An entry of `filetable`: `NULL`, the memory of `kmalloc` that nothing was written to, or
the vnode of a call of `vfs_open`. `ticket` numbers the calls of `vfs_open` that
succeeded. -/
inductive Vn (V : Type) where
  | null
  | raw
  | node (v : V) (ticket : Nat)
  deriving DecidableEq

def Vn.isNull {V : Type} : Vn V → Bool
  | .null => true
  | _ => false

def Vn.isNode {V : Type} : Vn V → Bool
  | .node _ _ => true
  | _ => false

/-- The global variables. `opened` counts the calls of `vfs_open` that succeeded, `closed`
are the tickets given to `vfs_close`; `group` gives the descriptors that `dup2` made of one
another the same number, out of the first `groups`. -/
structure Table (V : Type) where
  filetable : Int → Vn V
  offset : Int → Int
  dup : Int → Int
  isdup : Int → Int
  parent : Int → Int
  errno : Int
  opened : Nat
  closed : List Nat
  group : Int → Nat
  groups : Nat

/-- What the rest of the kernel answers to one call, and the words of memory that lie where
an index outside of the arrays leads. -/
structure Kernel (V : Type) where
  kmalloc : Bool
  copyin : Option Errno
  vopWrite : Option Errno
  vopRead : Option Errno
  vopTryseek : Option Errno
  stSize : Int
  vfsOpen : Except Errno V
  vfsChdir : Option Errno
  vfsGetcwd : Except Errno Nat
  strayNull : Int → Bool
  strayIsdup : Int → Int
  strayParent : Int → Int

/-- `failed` says that the function found an error. After `undefined` the code uses a word
as a vnode that is none, or writes outside of the arrays; `diverges` is a loop without
end, `halts` the end of `sys_reboot`. -/
inductive Result where
  | ret (retval : Int) (failed : Bool)
  | undefined
  | diverges
  | halts
  deriving DecidableEq

structure Out (V : Type) where
  log : List Int
  table : Table V
  result : Result

/-- An index of the arrays. -/
def InArrays (i : Int) : Prop := 0 ≤ i ∧ i < FILETABLESIZE

instance (i : Int) : Decidable (InArrays i) :=
  inferInstanceAs (Decidable (0 ≤ i ∧ i < FILETABLESIZE))

section Calls

variable {V : Type}

/-- `file_errno = e; return -1`. -/
def fail (t : Table V) (log : List Int) (e : Errno) : Out V :=
  { log := log, table := { t with errno := e.code }, result := .ret (-1) true }

/-- `filetable[i] == NULL`, also where `i` is no index. -/
def isNull (k : Kernel V) (t : Table V) (i : Int) : Bool :=
  if InArrays i then (t.filetable i).isNull else k.strayNull i

/-- `filetable_isdup[i]`. -/
def isdupAt (k : Kernel V) (t : Table V) (i : Int) : Int :=
  if InArrays i then t.isdup i else k.strayIsdup i

/-- The pointer in `filetable[i]` is a vnode that `vfs_open` returned. -/
def Holds (t : Table V) (i : Int) : Prop := InArrays i ∧ (t.filetable i).isNode = true

instance (t : Table V) (i : Int) : Decidable (Holds t i) :=
  inferInstanceAs (Decidable (InArrays i ∧ (t.filetable i).isNode = true))

/-! ## The list of duplicates -/

/-- A walk along `filetable_dup` that lasts this long is in a cycle. -/
def fuel : Nat := 19

/-- The loop of `dup2`, from `oldfd`. -/
def walkend (dup : Int → Int) (orgoldfd : Int) : Nat → Int → Option Int
  | 0, _ => none
  | n + 1, oldfd =>
    if dup oldfd > 0 ∧ dup oldfd ≠ orgoldfd then walkend dup orgoldfd n (dup oldfd)
    else some oldfd

/-- The descriptors this loop tests. -/
def visits (dup : Int → Int) (orgoldfd : Int) : Nat → Int → List Int
  | 0, _ => []
  | n + 1, oldfd =>
    if dup oldfd > 0 ∧ dup oldfd ≠ orgoldfd then
      oldfd :: visits dup orgoldfd n (dup oldfd)
    else [oldfd]

def updateoffset (dup : Int → Int) (orgfd : Int) :
    Nat → Int → (Int → Int) → Option (Int → Int)
  | 0, _, _ => none
  | n + 1, fd, offset =>
    if dup fd > 0 then
      if orgfd = dup fd then some (Function.update offset (dup fd) (offset fd))
      else updateoffset dup orgfd n (dup fd) (Function.update offset (dup fd) (offset fd))
    else some offset

/-- Where `updateoffset` touches the arrays. -/
def updateLog (dup : Int → Int) (fd : Int) : List Int :=
  (visits dup fd fuel fd).flatMap fun i => if dup i > 0 then [i, dup i] else [i]

/-- The end of `read` and `write`, after the transfer of `n` bytes. -/
def transferred (t : Table V) (log : List Int) (fd n : Int) : Out V :=
  match updateoffset t.dup fd fuel fd
      (Function.update t.offset fd (toInt32 (t.offset fd + n))) with
  | none =>
    { log := log ++ fd :: updateLog t.dup fd
      table := { t with errno := 0 }
      result := .diverges }
  | some offset =>
    { log := log ++ fd :: updateLog t.dup fd
      table := { t with errno := 0, offset := offset }
      result := .ret (toInt32 n) false }

/-! ## The six calls -/

def write (k : Kernel V) (t : Table V) (fd : Int) (nbytes : Nat) : Out V :=
  if fd = 0 then fail t [] .EBADF
  else if isNull k t fd then fail t [fd] .EBADF
  else
    match k.copyin with
    | some e => fail t [fd] e
    | none =>
      if Holds t fd then
        match k.vopWrite with
        | some e => fail t [fd] e
        | none => transferred t [fd] fd nbytes
      else { log := [fd], table := { t with errno := 0 }, result := .undefined }

/-- The slot `open` takes, if there is one below `FILETABLESIZE`. -/
def freeSlot (t : Table V) : Option Int :=
  ((List.range' 3 15).map Int.ofNat).find? fun i =>
    (t.filetable i).isNull && t.isdup i = 0

/-- The indices from 3 to `i`. -/
def scanned (i : Int) : List Int := (List.range' 3 (i.toNat - 2)).map Int.ofNat

/-- The slot as `open` prepares it for `vfs_open`. -/
def prepare (k : Kernel V) (t : Table V) (i : Int) : Table V :=
  { t with
    offset := Function.update t.offset i 0
    dup := Function.update t.dup i (-1)
    isdup := Function.update t.isdup i 0
    parent := Function.update t.parent i 0
    filetable := Function.update t.filetable i (if k.kmalloc then .raw else .null)
    group := Function.update t.group i t.groups
    groups := t.groups + 1 }

/-- The name `open` of the source is a word of the language. -/
def openFile (k : Kernel V) (t : Table V) : Out V :=
  match freeSlot t with
  | some i =>
    match k.vfsOpen with
    | .error e => fail (prepare k t i) (scanned i) e
    | .ok v =>
      { log := scanned i
        table :=
          { prepare k t i with
            filetable := Function.update (prepare k t i).filetable i (.node v t.opened)
            opened := t.opened + 1
            errno := 0 }
        result := .ret i false }
  | none =>
    -- the loop goes on to the index 18
    if k.strayNull FILETABLESIZE ∧ k.strayIsdup FILETABLESIZE = 0 then
      { log := scanned FILETABLESIZE, table := t, result := .undefined }
    else fail t (scanned FILETABLESIZE) .EMFILE

/-- One round of the loop of `close`. -/
def closeDup (fd : Int) (t : Table V) (i : Int) : Table V :=
  if t.parent i = fd then
    { t with
      isdup := Function.update t.isdup i 0
      parent := Function.update t.parent i 0
      filetable := Function.update t.filetable i .null }
  else t

def closeDups (t : Table V) (fd : Int) : Table V :=
  ((List.range 18).map Int.ofNat).foldl (closeDup fd) t

/-- The end of `close`, after `vfs_close`. -/
def vacate (t : Table V) (fd : Int) (ticket : Nat) : Table V :=
  { t with
    closed := ticket :: t.closed
    filetable := Function.update t.filetable fd .null
    offset := Function.update t.offset fd (-1)
    dup := Function.update t.dup fd (-1) }

def close (k : Kernel V) (t : Table V) (fd : Int) : Out V :=
  if fd = 0 ∨ fd = 1 ∨ fd = 2 then fail t [] .EBADF
  else if isNull k t fd then fail t [fd] .EBADF
  else if isdupAt k t fd ≠ 0 then fail t [fd] .EBADF
  else
    -- the last round reads `filetable_parent[18]`
    if InArrays fd ∧ k.strayParent FILETABLESIZE ≠ fd then
      match (closeDups t fd).filetable fd with
      | .node _ ticket =>
        { log := fd :: (List.range 19).map Int.ofNat
          table := vacate (closeDups t fd) fd ticket
          result := .ret 0 false }
      | _ =>
        { log := fd :: (List.range 19).map Int.ofNat
          table := closeDups t fd
          result := .undefined }
    else { log := fd :: (List.range 19).map Int.ofNat, table := t, result := .undefined }

/-- The number of bytes `read` asks for. -/
def readLength (size offset : Int) (buflen : Nat) : Int :=
  toInt32 (min (buflen : Int) ((size - offset) % wordSize))

def read (k : Kernel V) (t : Table V) (fd : Int) (buflen : Nat) : Out V :=
  if isNull k t fd then fail t [fd] .EBADF
  else if fd = 1 ∨ fd = 2 then fail t [fd] .EBADF
  else if Holds t fd then
    if t.offset fd < k.stSize then
      match k.vopRead with
      | some e => fail t [fd] e
      | none => transferred t [fd] fd (readLength k.stSize (t.offset fd) buflen)
    else { log := [fd], table := t, result := .ret 0 false }
  else { log := [fd], table := t, result := .undefined }

/-- The position `lseek` tries; none where `whence` is not valid. -/
def seekTo (size offset pos whence : Int) : Option Int :=
  if whence = 0 then some pos
  else if whence = 1 then some (toInt32 (offset + pos))
  else if whence = 2 then some (toInt32 (size - 1 + pos))
  else none

def lseek (k : Kernel V) (t : Table V) (fd pos whence : Int) : Out V :=
  if fd = 0 ∨ fd = 1 ∨ fd = 2 then fail t [] .ESPIPE
  else if isNull k t fd then fail t [fd] .EBADF
  else if Holds t fd then
    match k.vopTryseek with
    | some e => fail t [fd] e
    | none =>
      match seekTo k.stSize (t.offset fd) pos whence with
      | none =>
        -- `file_errno` was `EINVAL` before `VOP_TRYSEEK`
        { log := [fd], table := { t with errno := 0 }, result := .ret (-1) true }
      | some p =>
        if p < 0 then fail t [fd] .EINVAL
        else
          { log := [fd]
            table := { t with errno := 0, offset := Function.update t.offset fd p }
            result := .ret p false }
  else { log := [fd], table := t, result := .undefined }

/-- The end of `dup2`, for the last descriptor `oldfd` of the list. -/
def linkDup (t : Table V) (orgoldfd oldfd newfd : Int) : Table V :=
  { t with
    filetable := Function.update t.filetable newfd (t.filetable oldfd)
    dup := Function.update (Function.update t.dup newfd orgoldfd) oldfd newfd
    isdup := Function.update t.isdup newfd 1
    parent := Function.update t.parent newfd orgoldfd
    group := Function.update t.group newfd (t.group orgoldfd) }

/-- `dup2` from the test of `filetable[oldfd]` on. -/
def duplicate (k : Kernel V) (t : Table V) (log : List Int) (oldfd newfd : Int) : Out V :=
  if isNull k t oldfd then fail t (log ++ [oldfd]) .EBADF
  else if InArrays oldfd then
    match walkend t.dup oldfd fuel oldfd with
    | none =>
      { log := log ++ oldfd :: visits t.dup oldfd fuel oldfd
        table := t
        result := .diverges }
    | some last =>
      if InArrays newfd then
        { log := log ++ oldfd :: visits t.dup oldfd fuel oldfd ++ [newfd]
          table := linkDup t oldfd last newfd
          result := .ret 0 false }
      else
        { log := log ++ oldfd :: visits t.dup oldfd fuel oldfd ++ [newfd]
          table := t
          result := .undefined }
  else { log := log ++ [oldfd], table := t, result := .undefined }

def dup2 (k : Kernel V) (t : Table V) (oldfd newfd : Int) : Out V :=
  if (oldfd < 0 ∨ oldfd > FILETABLESIZE) ∨ (newfd < 0 ∨ newfd > FILETABLESIZE) then
    fail t [] .EBADF
  else if isNull k t newfd then duplicate k t [newfd] oldfd newfd
  else
    match (close k t newfd).result with
    | .ret r _ =>
      -- `file_errno` becomes what `close` returned
      if r ≠ 0 then
        { log := newfd :: (close k t newfd).log
          table := { (close k t newfd).table with errno := r }
          result := .ret (-1) true }
      else
        duplicate k { (close k t newfd).table with errno := r }
          (newfd :: (close k t newfd).log) oldfd newfd
    | r =>
      { log := newfd :: (close k t newfd).log, table := (close k t newfd).table, result := r }

inductive Call where
  | write (fd : Int) (nbytes : Nat)
  | openFile
  | close (fd : Int)
  | read (fd : Int) (buflen : Nat)
  | lseek (fd pos whence : Int)
  | dup2 (oldfd newfd : Int)

def perform (k : Kernel V) (t : Table V) : Call → Out V
  | .write fd nbytes => write k t fd nbytes
  | .openFile => openFile k t
  | .close fd => close k t fd
  | .read fd buflen => read k t fd buflen
  | .lseek fd pos whence => lseek k t fd pos whence
  | .dup2 oldfd newfd => dup2 k t oldfd newfd

/-! ## Runs -/

/-- The table when the program starts: `runprogram` opens the console once for the
descriptors 1 and 2. -/
def boot (con : Option V) : Table V :=
  { filetable := fun i =>
      match con with
      | some v => if i = 1 ∨ i = 2 then .node v 0 else .null
      | none => .null
    offset := fun _ => 0
    dup := fun _ => 0
    isdup := fun _ => 0
    parent := fun _ => 0
    errno := 0
    opened := if con.isSome then 1 else 0
    closed := []
    group := fun i => i.toNat
    groups := 18 }

/-- One call; there is a next state only when it comes back. -/
def step (k : Kernel V) (t : Table V) (c : Call) : Option (Table V) :=
  match (perform k t c).result with
  | .ret _ _ => some (perform k t c).table
  | _ => none

/-- One call of a run, with what the kernel answers to it. -/
def stepOn (t : Table V) (a : Kernel V × Call) : Option (Table V) := step a.1 t a.2

inductive Reach (con : Option V) : Table V → Prop where
  | boot : Reach con (boot con)
  | step {t t' : Table V} {k : Kernel V} {c : Call} :
      Reach con t → step k t c = some t' → Reach con t'

end Calls

end Os161.Filetable

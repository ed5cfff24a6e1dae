import Mathlib.Data.Finset.Prod
import Mathlib.Logic.Function.Basic

/-! # The table of open files

`assignment3/ownSolution/file.c` with the parts of `thread.c` that make and destroy
descriptor tables. Threads run one at a time and give up the processor inside `vfs_open`
and `vfs_close`; what lies between is one step. -/
namespace Os161.Files

def MAX_OPEN_FILES : Nat := 64

def MAX_FD : Nat := 16

inductive Errno where
  | EBADF | EINVAL | EMFILE | ENFILE | EFAULT
  | ENOENT | ENOTDIR | EEXIST | ENAMETOOLONG
  | other (code : Int)
  deriving DecidableEq

/-- The field `vn` of an entry: `NULL`, `BUSY_OFTE`, or a vnode. `ticket` numbers the
calls of `vfs_open` that succeeded. -/
inductive Vn (V : Type) where
  | null
  | busy
  | node (v : V) (ticket : Nat)
  deriving DecidableEq

structure Ofte (V : Type) where
  fp : Int
  flags : Int
  count : Int
  vn : Vn V

/-- `flags & O_ACCMODE`. -/
def accmode (flags : Int) : Int := flags % 4

inductive FdAccess where
  | F_READ | F_WRITE | F_ANY
  deriving DecidableEq

/-- Where a thread is: outside these calls, inside `vfs_open` of `sys_open` or
`sys_kopen`, inside `vfs_close` of `sys_close`, or past `thread_exit`. -/
inductive Phase where
  | running
  | opening (fd : Nat) (flags : Int) (ofte : Nat)
  | closing (fd : Nat)
  | zombie
  deriving DecidableEq

def Phase.opens : Phase → Nat → Bool
  | .opening _ _ j, i => j = i
  | _, _ => false

/-- `threads` are the threads with a descriptor table; `opened` counts the calls of
`vfs_open` that succeeded, `closed` are the tickets `vfs_close` was called with. -/
structure State (T V : Type) where
  oft : Nat → Ofte V
  threads : Finset T
  fdt : T → Nat → Option Nat
  phase : T → Phase
  reply : T → Except Errno Nat
  opened : Nat
  closed : List Nat
  panic : Bool

inductive Check where
  | ok (ofte : Nat)
  | ebadf
  | panic
  deriving DecidableEq

def checkFdAccess {V : Type} (oft : Nat → Ofte V) (fdt : Nat → Option Nat) (filehandle : Int)
    (acc : FdAccess) : Check :=
  if filehandle < 0 ∨ filehandle ≥ MAX_FD then .ebadf
  else
    match fdt filehandle.toNat with
    | none => .ebadf
    | some i =>
      if accmode (oft i).flags = 0 then
        if acc = .F_WRITE then .ebadf else .ok i
      else if accmode (oft i).flags = 1 then
        if acc = .F_READ then .ebadf else .ok i
      else if accmode (oft i).flags = 2 then .ok i
      else .panic

/-- The index that `oft_alloc` finds. -/
def oftAlloc {V : Type} [DecidableEq V] (oft : Nat → Ofte V) : Option Nat :=
  (List.range MAX_OPEN_FILES).find? fun i => (oft i).vn = .null

def oftFree {V : Type} (oft : Nat → Ofte V) (i : Nat) : Nat → Ofte V :=
  Function.update oft i
    { oft i with
      count := (oft i).count - 1
      vn := if (oft i).count - 1 = 0 then .null else (oft i).vn }

/-- The first free descriptor. -/
def freeFd (fdt : Nat → Option Nat) : Option Nat :=
  (List.range MAX_FD).find? fun i => fdt i = none

/-- `vfs_open` looks at the access mode before anything else. -/
def vfsOpen {V : Type} (flags : Int) (rest : Except Errno V) : Except Errno V :=
  if accmode flags = 3 then .error .EINVAL else rest

/-- `openBegin` and `kopenBegin` go up to the call of `vfs_open`, `openEnd` is its return.
`close` is `sys_close` without a thread switch, `closeBegin` and `closeEnd` the same with
one. `move` stands for `sys_read`, `sys_write` and `sys_lseek`, which leave a file
position behind. -/
inductive Act (T V : Type) where
  | fork (child : T)
  | exit (t : T)
  | destroy (t : T)
  | openBegin (t : T) (flags : Int) (copied : Option Errno)
  | kopenBegin (t : T) (flags : Int) (fd : Nat)
  | openEnd (t : T) (r : Except Errno V)
  | close (t : T) (filehandle : Int)
  | closeBegin (t : T) (filehandle : Int)
  | closeEnd (t : T)
  | move (t : T) (filehandle : Int) (fp : Int)

namespace State

section Machine

variable {T V : Type} [DecidableEq T] [DecidableEq V]

def setSlot (s : State T V) (t : T) (fd : Nat) (o : Option Nat) : State T V :=
  { s with fdt := Function.update s.fdt t (Function.update (s.fdt t) fd o) }

def answer (s : State T V) (t : T) (r : Except Errno Nat) : State T V :=
  { s with reply := Function.update s.reply t r }

def setPhase (s : State T V) (t : T) (p : Phase) : State T V :=
  { s with phase := Function.update s.phase t p }

/-- From `oft_alloc` to the call of `vfs_open`. -/
def claimEntry (s : State T V) (t : T) (flags : Int) (fd : Nat) : State T V :=
  match oftAlloc s.oft with
  | none => (s.setSlot t fd none).answer t (.error .ENFILE)
  | some i =>
    { s with oft := Function.update s.oft i { s.oft i with vn := .busy, count := 1 } }.setPhase t
      (.opening fd flags i)

def sysOpen (s : State T V) (t : T) (flags : Int) (copied : Option Errno) : State T V :=
  match copied with
  | some e => s.answer t (.error e)
  | none =>
    match freeFd (s.fdt t) with
    | none => s.answer t (.error .EMFILE)
    | some fd => s.claimEntry t flags fd

def sysKopen (s : State T V) (t : T) (flags : Int) (fd : Nat) : State T V :=
  if s.fdt t fd = none then s.claimEntry t flags fd else s.answer t (.error .EMFILE)

/-- What follows `vfs_open`. -/
def openReturn (s : State T V) (t : T) (fd : Nat) (flags : Int) (i : Nat) :
    Except Errno V → State T V
  | .error e => ({ s with oft := oftFree s.oft i }.setSlot t fd none).answer t (.error e)
  | .ok v =>
    ({ s with
      oft := Function.update s.oft i
        { s.oft i with vn := .node v s.opened, fp := 0, flags := flags }
      opened := s.opened + 1 }.setSlot t fd (some i)).answer t (.ok fd)

/-- `sys_close` up to the return of `vfs_close`. -/
def closeEntry (s : State T V) (i : Nat) : State T V :=
  { s with
    oft := oftFree s.oft i
    closed :=
      if (s.oft i).count - 1 = 0 then
        match (s.oft i).vn with
        | .node _ k => k :: s.closed
        | _ => s.closed
      else s.closed }

/-- The next state, if this can happen now. -/
def step (s : State T V) (a : Act T V) : Option (State T V) :=
  if s.panic then none
  else match a with
  | .fork child =>
    if child ∈ s.threads then none
    else
      some ({ s with
        threads := insert child s.threads
        fdt := Function.update s.fdt child fun _ => none }.setPhase child .running)
  | .exit t => if t ∈ s.threads ∧ s.phase t = .running then some (s.setPhase t .zombie) else none
  | .destroy t =>
    if t ∈ s.threads ∧ s.phase t = .zombie then some { s with threads := s.threads.erase t }
    else none
  | .openBegin t flags copied =>
    if t ∈ s.threads ∧ s.phase t = .running then some (s.sysOpen t flags copied) else none
  | .kopenBegin t flags fd =>
    if t ∈ s.threads ∧ s.phase t = .running ∧ fd < MAX_FD then some (s.sysKopen t flags fd)
    else none
  | .openEnd t r =>
    if t ∈ s.threads then
      match s.phase t with
      | .opening fd flags i =>
        some ((s.openReturn t fd flags i (vfsOpen flags r)).setPhase t .running)
      | _ => none
    else none
  | .close t filehandle =>
    if t ∈ s.threads ∧ s.phase t = .running then
      match checkFdAccess s.oft (s.fdt t) filehandle .F_ANY with
      | .ebadf => some (s.answer t (.error .EBADF))
      | .panic => some { s with panic := true }
      | .ok i => some (((s.closeEntry i).setSlot t filehandle.toNat none).answer t (.ok 0))
    else none
  | .closeBegin t filehandle =>
    if t ∈ s.threads ∧ s.phase t = .running then
      match checkFdAccess s.oft (s.fdt t) filehandle .F_ANY with
      | .ok i =>
        if (s.oft i).count - 1 = 0 then
          some ((s.closeEntry i).setPhase t (.closing filehandle.toNat))
        else none
      | _ => none
    else none
  | .closeEnd t =>
    if t ∈ s.threads then
      match s.phase t with
      | .closing fd => some (((s.setSlot t fd none).answer t (.ok 0)).setPhase t .running)
      | _ => none
    else none
  | .move t filehandle fp =>
    if t ∈ s.threads ∧ s.phase t = .running then
      match checkFdAccess s.oft (s.fdt t) filehandle .F_ANY with
      | .ok i => some { s with oft := Function.update s.oft i { s.oft i with fp := fp } }
      | _ => none
    else none

/-- After `oft_bootstrap`. -/
def boot : State T V where
  oft := fun _ => ⟨0, 0, 0, .null⟩
  threads := ∅
  fdt := fun _ _ => none
  phase := fun _ => .running
  reply := fun _ => .ok 0
  opened := 0
  closed := []
  panic := false

def runs (s : State T V) : List (Act T V) → Option (State T V)
  | [] => some s
  | a :: as => (s.step a).bind fun s => runs s as

/-! ## What the table is for -/

/-- The descriptors that refer to entry `i`. -/
def refs (s : State T V) (i : Nat) : Nat :=
  ((s.threads ×ˢ Finset.range MAX_FD).filter fun p => s.fdt p.1 p.2 = some i).card

/-- The opens of entry `i` in progress. -/
def openings (s : State T V) (i : Nat) : Nat :=
  (s.threads.filter fun t => (s.phase t).opens i = true).card

/-- An entry is counted and kept as long as something refers to it, and every file that
was opened has been closed if nothing does. -/
structure Accounted (s : State T V) : Prop where
  count : ∀ i < MAX_OPEN_FILES, (s.oft i).count = s.refs i + s.openings i
  null : ∀ i < MAX_OPEN_FILES, (s.oft i).vn = .null ↔ s.refs i + s.openings i = 0
  once : ∀ k < s.opened,
    (∃ i < MAX_OPEN_FILES, ∃ v, (s.oft i).vn = .node v k ∧ s.refs i ≠ 0) ∧ s.closed.count k = 0 ∨
    (∀ i < MAX_OPEN_FILES, ∀ v, (s.oft i).vn = .node v k → s.refs i = 0) ∧ s.closed.count k = 1
  matched : ∀ k ∈ s.closed, k < s.opened

end Machine

end State

end Os161.Files

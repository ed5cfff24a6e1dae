import Mathlib.Logic.Function.Basic
import Mathlib.Data.List.Nodup
import Os161.Lib.Runs
import Os161.Sfs.Directory

/-! # References to vnodes

`vnode_incref`, `vnode_decref`, `sfs_loadvnode` and `sfs_reclaim` run by any number of threads.
A step is what a thread does from one place where it may be switched to the next: each
`lock_acquire` of a `vn_countlock` and each disk access is such a place. -/
namespace Os161.Sfs.Counts
open Os161.Runs

/-- The largest `int`. -/
def intMax : Nat := 2147483647

/-- Where a thread may be switched. -/
inductive Pc where
  | idle
  | incref (sv : Ptr)
  | decref (sv : Ptr)
  | reclaim (sv : Ptr)
  | truncating (sv : Ptr)
  | syncing (sv : Ptr)
  | reading (sv : Ptr) (ino : UInt32) (forcetype : UInt16)

/-- What the code after a disk access finds: that there is another access to make, that the
operation is done, or that it failed. What is read is the inode; a load also fails if there is
no memory for the lock of the vnode or for the table. -/
inductive Outcome where
  | more
  | done (i : SfsInode)
  | failed

/-- `heap` holds the vnodes, `allocated` has the addresses `kmalloc` has handed out. A thread
in `vnode_decref` has its reference until the call returns. -/
structure State (T : Type) where
  heap : Ptr → SfsVnode
  sfsVnodes : List Ptr
  allocated : List Ptr
  freemap : UInt32 → Bool
  pc : T → Pc
  refs : List (T × Ptr)

inductive Act (T : Type) where
  | load (t : T) (ino : UInt32) (forcetype : UInt16) (mem : Option Ptr)
  | incref (t : T) (sv : Ptr)
  | decref (t : T) (sv : Ptr)
  /-- Another thread gets the reference. -/
  | hand (t u : T) (sv : Ptr)
  /-- All other code leaves the count and the number of the inode as they are. -/
  | modify (sv : Ptr) (opencount : Nat) (i : SfsInode) (dirty : Bool)
  | mark (block : UInt32) (used : Bool)
  | run (t : T) (o : Outcome)

section Machine

variable {T : Type} [DecidableEq T]

namespace State

def goto (s : State T) (t : T) (p : Pc) : State T := { s with pc := Function.update s.pc t p }

def setVnode (s : State T) (sv : Ptr) (n : SfsVnode) : State T :=
  { s with heap := Function.update s.heap sv n }

/-- The call returns, and its thread has no longer the reference. -/
def drop (s : State T) (t : T) (sv : Ptr) : State T :=
  { s.goto t .idle with refs := s.refs.erase (t, sv) }

def gain (s : State T) (t : T) (sv : Ptr) (n : SfsVnode) : State T :=
  { (s.setVnode sv n).goto t .idle with refs := (t, sv) :: s.refs }

def search (s : State T) (ino : UInt32) (forcetype : UInt16) : List Ptr → Option (Option Ptr)
  | [] => some none
  | sv :: rest =>
    if s.freemap (s.heap sv).svIno then
      if (s.heap sv).svIno = ino then
        if forcetype ≠ sfsTypeInval then none else some (some sv)
      else s.search ino forcetype rest
    else none

def sfsLoadvnode (s : State T) (t : T) (ino : UInt32) (forcetype : UInt16) (mem : Option Ptr) :
    Option (State T) :=
  match s.search ino forcetype s.sfsVnodes with
  | none => none
  | some (some sv) => some (s.goto t (.incref sv))
  | some none =>
    match mem with
    | none => some s
    | some sv =>
      if sv ∈ s.allocated ∨ ¬ s.freemap ino then none
      else some { s.goto t (.reading sv ino forcetype) with allocated := sv :: s.allocated }

/-- `sfs_loadvnode` after reading the inode. -/
def loaded (s : State T) (t : T) (sv : Ptr) (ino : UInt32) (forcetype : UInt16) (i : SfsInode) :
    Option (State T) :=
  match sfsLoadvnode.init ino forcetype i with
  | .error _ => none
  | .ok n => some { s.gain t sv n with sfsVnodes := s.sfsVnodes ++ [sv] }

/-- `vnode_incref`; an overflow of the `int` has no meaning. -/
def vnodeIncref (s : State T) (t : T) (sv : Ptr) : Option (State T) :=
  if (s.heap sv).vnRefcount < intMax then
    some (s.gain t sv { s.heap sv with vnRefcount := (s.heap sv).vnRefcount + 1 })
  else none

def vnodeDecref (s : State T) (t : T) (sv : Ptr) : Option (State T) :=
  if (s.heap sv).vnRefcount = 0 then none
  else if (s.heap sv).vnRefcount > 1 then
    some ((s.setVnode sv { s.heap sv with vnRefcount := (s.heap sv).vnRefcount - 1 }).drop t sv)
  else some (s.goto t (.reclaim sv))

/-- The end of `sfs_reclaim`, with its panic and the asserts of `bitmap_unmark` and of
`vnode_kill`. -/
def remove (s : State T) (t : T) (sv : Ptr) : Option (State T) :=
  let n := s.heap sv
  if n.svI.sfiLinkcount = 0 ∧ ¬ s.freemap n.svIno then none
  else if sv ∉ s.sfsVnodes then none
  else if n.vnRefcount ≠ 1 ∨ n.vnOpencount ≠ 0 then none
  else some { s.drop t sv with
    sfsVnodes := s.sfsVnodes.erase sv
    allocated := s.allocated.erase sv
    freemap :=
      if n.svI.sfiLinkcount = 0 then Function.update s.freemap n.svIno false else s.freemap }

def sfsSyncInode (s : State T) (t : T) (sv : Ptr) : Option (State T) :=
  if (s.heap sv).svDirty then some (s.goto t (.syncing sv)) else s.remove t sv

def sfsReclaim (s : State T) (t : T) (sv : Ptr) : Option (State T) :=
  if (s.heap sv).vnRefcount ≠ 1 then some (s.drop t sv)
  else if (s.heap sv).svI.sfiLinkcount = 0 then some (s.goto t (.truncating sv))
  else s.sfsSyncInode t sv

/-- A thread goes on from where it was switched. An error of `sfs_reclaim`, `EBUSY` too, is the
end of `vnode_decref`. -/
def resume (s : State T) (t : T) (o : Outcome) : Option (State T) :=
  match s.pc t with
  | .idle => none
  | .incref sv => s.vnodeIncref t sv
  | .decref sv => s.vnodeDecref t sv
  | .reclaim sv => s.sfsReclaim t sv
  | .truncating sv =>
    match o with
    | .more => some s
    | .done _ => s.sfsSyncInode t sv
    | .failed => some (s.drop t sv)
  | .syncing sv =>
    match o with
    | .more => some s
    | .done _ => s.remove t sv
    | .failed => some (s.drop t sv)
  | .reading sv ino forcetype =>
    match o with
    | .more => some s
    | .done i => s.loaded t sv ino forcetype i
    | .failed => some { s.goto t .idle with allocated := s.allocated.erase sv }

end State

def Pc.isIdle : Pc → Bool
  | .idle => true
  | _ => false

/-- Nothing is done where the kernel panics or a thread that is in a call is to begin one. -/
def step (s : State T) : Act T → Option (State T)
  | .load t ino forcetype mem =>
    if (s.pc t).isIdle then s.sfsLoadvnode t ino forcetype mem else none
  | .incref t sv =>
    if (s.pc t).isIdle ∧ (t, sv) ∈ s.refs then some (s.goto t (.incref sv)) else none
  | .decref t sv =>
    if (s.pc t).isIdle ∧ (t, sv) ∈ s.refs then some (s.goto t (.decref sv)) else none
  | .hand t u sv =>
    if (s.pc t).isIdle ∧ (t, sv) ∈ s.refs then
      some { s with refs := (u, sv) :: s.refs.erase (t, sv) }
    else none
  | .modify sv opencount i dirty =>
    if sv ∈ s.sfsVnodes then
      some (s.setVnode sv
        { s.heap sv with vnOpencount := opencount, svI := i, svDirty := dirty })
    else none
  | .mark block used => some { s with freemap := Function.update s.freemap block used }
  | .run t o => s.resume t o

/-- A file system just mounted. -/
def boot (heap : Ptr → SfsVnode) (freemap : UInt32 → Bool) : State T where
  heap := heap
  sfsVnodes := []
  allocated := []
  freemap := freemap
  pc := fun _ => .idle
  refs := []

end Machine
end Os161.Sfs.Counts

import Os161.Lib.Runs

/-! # The disk driver

`lhd.c`: `lhd_io` in any number of threads, `lhd_irq`, and the controller. `P` and `V` are those
of `synch.c`: one step each with interrupts off, but a `P` that finds no unit sleeps, and has to
test again after the `V` that wakes it. `T` are the threads and `B` the contents of a sector. -/
namespace Os161.Dev

inductive Errno where
  | EINVAL | EIO | EAGAIN
  | other (code : Int)
  deriving DecidableEq

/-! ## The controller -/

def lhdIdle : UInt32 := 0
def lhdWorking : UInt32 := 1
def lhdOk : UInt32 := 4
def lhdInvsect : UInt32 := 12
def lhdMedia : UInt32 := 20
def lhdIswrite : UInt32 := 2
def lhdStatemask : UInt32 := 0x1d
def lhdSectsize : UInt32 := 512

/-- How an operation ends. -/
inductive Code where
  | ok | invsect | media
  deriving DecidableEq

/-- The status register for it; the controller may leave the flag of a write. -/
def Code.stat (flag : Bool) : Code → UInt32
  | .ok => lhdOk ||| if flag then lhdIswrite else 0
  | .invsect => lhdInvsect ||| if flag then lhdIswrite else 0
  | .media => lhdMedia ||| if flag then lhdIswrite else 0

def lhdCodeToErrno (code : UInt32) : Option Errno :=
  if code &&& lhdStatemask = lhdOk then none
  else if code &&& lhdStatemask = lhdInvsect then some .EINVAL
  else if code &&& lhdStatemask = lhdMedia then some Errno.EIO
  else some .EAGAIN

/-- An operation the controller was told to start. -/
structure Op (T : Type) where
  id : Nat
  thread : T
  sector : UInt32
  write : Bool
  deriving DecidableEq

/-- The completion of an operation: the sector on the disk at that moment, and the on-card
buffer afterwards. -/
structure Completion (T B : Type) where
  op : Op T
  code : Code
  sector : B
  buf : B

/-! ## Threads -/

/-- The arguments of a call of `lhd_io`. -/
structure Call where
  write : Bool
  uioOffset : Int32
  uioResid : UInt32
  deriving DecidableEq

namespace Call

def sector (c : Call) : UInt32 := (c.uioOffset / 512).toUInt32
def sectoff (c : Call) : UInt32 := (c.uioOffset % 512).toUInt32
def len (c : Call) : UInt32 := c.uioResid / lhdSectsize
def lenoff (c : Call) : UInt32 := c.uioResid % lhdSectsize

/-- Refused before any sector is touched. -/
def refused (dBlocks : UInt32) (c : Call) : Bool :=
  c.sectoff ≠ 0 || c.lenoff ≠ 0 || c.sector + c.len > dBlocks

end Call

/-- One round of the loop that got as far as an operation: the completion that ended its wait,
the result, and what was moved out of the buffer. -/
structure Round (T B : Type) where
  op : Op T
  completion : Option (Completion T B)
  result : Option Errno
  moved : Option B

/-- A call under way: the sector it is at, and its rounds, newest first. -/
structure Frame (T B : Type) where
  call : Call
  i : UInt32
  past : List (Round T B)

/-- Where a thread is in `lhd_io`. From `fill` to `clear` it has the unit of `lh_clear`. -/
inductive Pc (T B : Type) where
  | out
  | enter (c : Call)
  | pClear (f : Frame T B)
  | sleepClear (f : Frame T B)
  | fill (f : Frame T B)
  | failed (f : Frame T B) (e : Errno)
  | setSect (f : Frame T B)
  | setStat (f : Frame T B)
  | pDone (f : Frame T B) (op : Op T)
  | sleepDone (f : Frame T B) (op : Op T)
  | getResult (f : Frame T B) (op : Op T) (done : Option (Completion T B))
  | moveOut (f : Frame T B) (op : Op T) (done : Option (Completion T B))
  | clear (f : Frame T B) (r : Round T B)

/-- A call that has returned. `fault` is an error of `uiomove` before the operation of a round
was started. -/
structure Answer (T B : Type) where
  thread : T
  call : Call
  result : Option Errno
  past : List (Round T B)
  fault : Option Errno

/-- The counts of both semaphores, `lh_result`, the registers and the buffer of the controller,
the operations it is at, and the disk. The rest is history, which no step depends on: the
operations started, the completion the interrupt handler has not seen, and those that no thread
has waited for yet. -/
structure Lh (T B : Type) where
  lhClear : Nat
  lhDone : Nat
  lhResult : Option Errno
  sect : UInt32
  stat : UInt32
  buf : B
  disk : UInt32 → B
  inflight : List (Op T)
  started : List (Op T)
  posted : Option (Completion T B)
  signalled : List (Completion T B)

/-- The driver with the threads, and again history: what ended each wait, and the calls that
returned. -/
structure State (T B : Type) where
  lh : Lh T B
  pc : T → Pc T B
  waits : List (Op T × Option (Completion T B))
  answers : List (Answer T B)

section Machine

variable {T B : Type} [DecidableEq T]

def upd {α β : Type} [DecidableEq α] (f : α → β) (a : α) (b : β) : α → β :=
  fun x => if x = a then b else f x

def Pc.wakeClear : Pc T B → Pc T B
  | .sleepClear f => .pClear f
  | p => p

def Pc.wakeDone : Pc T B → Pc T B
  | .sleepDone f op => .pDone f op
  | p => p

namespace State

/-- Thread `t` goes on at `p`. -/
def goto (s : State T B) (t : T) (p : Pc T B) : State T B := { s with pc := upd s.pc t p }

/-- `V(lh->lh_clear)`. -/
def vClear (s : State T B) : State T B :=
  { s with
    lh := { s.lh with lhClear := s.lh.lhClear + 1 }
    pc := fun t => (s.pc t).wakeClear }

/-- `V(lh->lh_done)`, for a completion. -/
def vDone (s : State T B) (c : Option (Completion T B)) : State T B :=
  { s with
    lh := { s.lh with lhDone := s.lh.lhDone + 1, signalled := c.toList ++ s.lh.signalled }
    pc := fun t => (s.pc t).wakeDone }

def ret (s : State T B) (t : T) (f : Frame T B) (result fault : Option Errno) : State T B :=
  { s.goto t .out with answers := ⟨t, f.call, result, f.past, fault⟩ :: s.answers }

/-- The test of the loop. -/
def loop (s : State T B) (t : T) (f : Frame T B) : State T B :=
  if f.i < f.call.len then s.goto t (.pClear f) else s.ret t f none none

/-- One step of thread `t` in `lhd_io`. If it is a `uiomove`, `moved` is the error and `data`
what the buffer holds afterwards. -/
def exec (dBlocks : UInt32) (s : State T B) (t : T) (moved : Option Errno) (data : B) :
    Option (State T B) :=
  match s.pc t with
  | .out => none
  | .enter c =>
    let f := ⟨c, 0, []⟩
    some (if c.refused dBlocks then s.ret t f (some .EINVAL) none else s.loop t f)
  | .pClear f =>
    some (if s.lh.lhClear = 0 then s.goto t (.sleepClear f)
      else { s with lh := { s.lh with lhClear := s.lh.lhClear - 1 } }.goto t
        (if f.call.write then .fill f else .setSect f))
  | .sleepClear _ => none
  | .fill f =>
    some ({ s with lh := { s.lh with buf := data } }.goto t
      (match moved with
        | none => .setSect f
        | some e => .failed f e))
  | .failed f e => some (s.vClear.ret t f (some e) (some e))
  | .setSect f =>
    some ({ s with lh := { s.lh with sect := f.call.sector + f.i } }.goto t (.setStat f))
  | .setStat f =>
    let op : Op T := ⟨s.lh.started.length, t, s.lh.sect, f.call.write⟩
    some ({ s with lh := { s.lh with
      stat := lhdWorking ||| if f.call.write then lhdIswrite else 0
      inflight := op :: s.lh.inflight
      started := op :: s.lh.started } }.goto t (.pDone f op))
  | .pDone f op =>
    some (if s.lh.lhDone = 0 then s.goto t (.sleepDone f op)
      else { s with
        lh := { s.lh with lhDone := s.lh.lhDone - 1, signalled := s.lh.signalled.tail }
        waits := (op, s.lh.signalled.head?) :: s.waits }.goto t
          (.getResult f op s.lh.signalled.head?))
  | .sleepDone _ _ => none
  | .getResult f op c =>
    some (s.goto t (if s.lh.lhResult = none ∧ ¬f.call.write then .moveOut f op c
      else .clear f ⟨op, c, s.lh.lhResult, none⟩))
  | .moveOut f op c =>
    some (s.goto t (.clear f ⟨op, c, moved, if moved = none then some s.lh.buf else none⟩))
  | .clear f r =>
    let f' : Frame T B := ⟨f.call, f.i + 1, r :: f.past⟩
    some (match r.result with
      | some e => s.vClear.ret t f' (some e) none
      | none => s.vClear.loop t f')

end State

namespace Lh

/-- The controller completes one of the operations it was told to start. A read that succeeds
brings the sector into the buffer, a write that succeeds takes it from there; after a failure
the buffer holds anything. -/
def complete (lh : Lh T B) (i : Nat) (code : Code) (flag : Bool) (junk : B) : Option (Lh T B) :=
  (lh.inflight[i]?).map fun op =>
    let sector := lh.disk op.sector
    let buf := if code = .ok then (if op.write then lh.buf else sector) else junk
    { lh with
      stat := code.stat flag
      buf
      disk := if code = .ok ∧ op.write then upd lh.disk op.sector lh.buf else lh.disk
      inflight := lh.inflight.eraseIdx i
      posted := some ⟨op, code, sector, buf⟩ }

end Lh

/-- `lhd_irq` and `lhd_iodone`. -/
def State.lhdIrq (s : State T B) : State T B :=
  let val := s.lh.stat
  if val &&& lhdStatemask = lhdOk ∨ val &&& lhdStatemask = lhdInvsect ∨
      val &&& lhdStatemask = lhdMedia then
    { s with lh := { s.lh with stat := 0, lhResult := lhdCodeToErrno val, posted := none } }.vDone
      s.lh.posted
  else s

/-- A thread calls `lhd_io`, a thread in it goes on, the controller completes an operation, or an
interrupt arrives. -/
inductive Act (T B : Type) where
  | call (t : T) (c : Call)
  | exec (t : T) (moved : Option Errno) (data : B)
  | complete (i : Nat) (code : Code) (flag : Bool) (junk : B)
  | irq

def step (dBlocks : UInt32) (s : State T B) : Act T B → Option (State T B)
  | .call t c =>
    match s.pc t with
    | .out => some (s.goto t (.enter c))
    | _ => none
  | .exec t moved data => s.exec dBlocks t moved data
  | .complete i code flag junk => (s.lh.complete i code flag junk).map fun lh => { s with lh }
  | .irq => some s.lhdIrq

/-- After `config_lhd`. -/
def boot (buf : B) (disk : UInt32 → B) : State T B where
  lh :=
    { lhClear := 1
      lhDone := 0
      lhResult := none
      sect := 0
      stat := lhdIdle
      buf
      disk
      inflight := []
      started := []
      posted := none
      signalled := [] }
  pc := fun _ => .out
  waits := []
  answers := []

end Machine

end Os161.Dev

import Mathlib.Data.List.Count
import Mathlib.Data.List.Perm.Basic
import Os161.Switch.Containers

/-! # The lists a thread can be on

`kern/thread/thread.c` and `scheduler.c`: the run queue, `sleepers` and `zombies`, over the
arrays and queues that hold them. A step is what happens between two points where
interrupts may be enabled. -/
namespace Os161.Switch

/-- Where a thread continues when it is switched to: in `mi_threadstart`, or in
`mi_switch` under `thread_yield` or `thread_sleep`. -/
inductive Resume where
  | fresh | yielded | slept
  deriving DecidableEq

/-- `cur` is `curthread`; `idle` says that `scheduler` has called `cpu_idle`. `making`
pairs a thread inside `thread_fork`, before its `splhigh`, with the thread it is setting
up. `live` records the threads that were forked and not yet destroyed, `calls` the calls
of `kmalloc`. -/
structure Sys (T A : Type) where
  cur : Option T
  idle : Bool
  runqueue : Queue T
  sleepers : GuyArray T
  zombies : GuyArray T
  numthreads : Nat
  sleepaddr : T → Option A
  resume : T → Resume
  making : List (T × T)
  live : List T
  calls : Nat
  panic : Bool

/-- `create` and `finish` are the two parts of `thread_fork`, `dispatch` is what
`scheduler` returns. `wakeup` and `wakeone` also come from interrupt handlers. -/
inductive Act (T A : Type) where
  | create (newguy : T)
  | finish
  | yield
  | sleep (a : A)
  | exit
  | wakeup (a : A)
  | wakeone (a : A)
  | dispatch
  deriving DecidableEq

/-- Everything but `thread_fork`. -/
def Act.switches {T A : Type} : Act T A → Bool
  | .create _ | .finish => false
  | _ => true

/-- `thread_create` and the stack: three calls of `kmalloc`, as far as they succeed. -/
def threadCreate (heap : Nat → Bool) (n : Nat) : Bool × Nat :=
  if heap n then if heap (n + 1) then (heap (n + 2), n + 3) else (false, n + 2)
  else (false, n + 1)

/-- The loop of `exorcise`; none where `assert(z!=curthread)` fails. -/
def destroyAll {T : Type} [DecidableEq T] (cur : Option T) : List T → List T → Option (List T)
  | [], live => some live
  | z :: zs, live => if cur = some z then none else destroyAll cur zs (live.erase z)

namespace Sys

section Machine

variable {T A : Type} [DecidableEq T] [DecidableEq A] (heap : Nat → Bool)

/-- `thread_bootstrap` and `scheduler_bootstrap`. -/
def boot (me : T) : Sys T A where
  cur := some me
  idle := false
  runqueue := qCreate 32
  sleepers := arrayCreate
  zombies := arrayCreate
  numthreads := 1
  sleepaddr := fun _ => none
  resume := fun _ => .fresh
  making := []
  live := [me]
  calls := 0
  panic := false

def forking (s : Sys T A) (t : T) : Option (T × T) := s.making.find? fun p => p.1 = t

/-- `assert(result==0)` after `make_runnable`. -/
def makeRunnable (s : Sys T A) (t : T) : Sys T A :=
  match qAddtail heap s.runqueue t s.calls with
  | (some q, n) => { s with runqueue := q, calls := n }
  | (none, n) => { s with calls := n, panic := true }

/-- The critical section of `thread_fork`. -/
def finishFork (s : Sys T A) (p : T × T) : Sys T A :=
  let s := { s with making := s.making.erase p }
  match arrayPreallocate heap s.sleepers (s.numthreads + 1) s.calls with
  | (none, n) => { s with calls := n }
  | (some sleepers, n) =>
    let s := { s with sleepers := sleepers, calls := n }
    match arrayPreallocate heap s.zombies (s.numthreads + 1) s.calls with
    | (none, n) => { s with calls := n }
    | (some zombies, n) =>
      let s := { s with zombies := zombies, calls := n }
      match qPreallocate heap s.runqueue (s.numthreads + 1) s.calls with
      | (none, n) => { s with calls := n }
      | (some q, n) =>
        let s := { s with runqueue := q, calls := n }
        match qAddtail heap s.runqueue p.2 s.calls with
        | (none, n) => { s with calls := n }
        | (some q, n) =>
          { s with
            runqueue := q
            calls := n
            numthreads := s.numthreads + 1
            resume := Function.update s.resume p.2 .fresh
            live := p.2 :: s.live }

/-- `mi_switch` up to the call of `scheduler`. -/
def stashReady (s : Sys T A) (t : T) : Sys T A :=
  let s := { s with cur := none, resume := Function.update s.resume t .yielded }.makeRunnable heap t
  { s with idle := s.runqueue.empty }

def stashSleep (s : Sys T A) (t : T) (a : A) : Sys T A :=
  let s := { s with
    cur := none
    idle := s.runqueue.empty
    resume := Function.update s.resume t .slept
    sleepaddr := Function.update s.sleepaddr t (some a) }
  match arrayAdd heap s.sleepers t s.calls with
  | (some sleepers, n) => { s with sleepers := sleepers, calls := n }
  | (none, n) => { s with calls := n, panic := true }

/-- `thread_exit`. -/
def stashZomb (s : Sys T A) (t : T) : Sys T A :=
  if s.numthreads = 0 then { s with panic := true }
  else
    let s := { s with
      cur := none
      idle := s.runqueue.empty
      numthreads := s.numthreads - 1 }
    match arrayAdd heap s.zombies t s.calls with
    | (some zombies, n) => { s with zombies := zombies, calls := n }
    | (none, n) => { s with calls := n, panic := true }

def exorcise (s : Sys T A) : Sys T A :=
  match destroyAll s.cur s.zombies.guys s.live with
  | some live => { s with live := live, zombies := arrayClear s.zombies }
  | none => { s with panic := true }

/-- The rest of `mi_switch`, in the thread that was switched to. A new thread does not
pass here. -/
def resumed (s : Sys T A) (t : T) : Sys T A :=
  match s.resume t with
  | .fresh => s
  | .yielded => s.exorcise
  | .slept => { s.exorcise with sleepaddr := Function.update s.sleepaddr t none }

/-- The loop of `thread_wakeup`, at index `i`. -/
def wakeupLoop (a : A) : Nat → Nat → Sys T A → Sys T A
  | 0, _, s => s
  | fuel + 1, i, s =>
    if s.panic then s
    else
      match s.sleepers.guys[i]? with
      | none => s
      | some t =>
        if s.sleepaddr t = some a then
          wakeupLoop a fuel i ({ s with sleepers := arrayRemove s.sleepers i }.makeRunnable heap t)
        else wakeupLoop a fuel (i + 1) s

/-- The loop of `thread_wakeone`. -/
def wakeoneLoop (a : A) : Nat → Nat → Sys T A → Sys T A
  | 0, _, s => s
  | fuel + 1, i, s =>
    match s.sleepers.guys[i]? with
    | none => s
    | some t =>
      if s.sleepaddr t = some a then
        { s with sleepers := arrayRemove s.sleepers i }.makeRunnable heap t
      else wakeoneLoop a fuel (i + 1) s

/-- Interrupts come while a thread runs, and in `cpu_idle`. -/
def interruptible (s : Sys T A) : Bool := s.cur.isSome || s.idle

/-- The next state, if this can happen now. -/
def step (s : Sys T A) (a : Act T A) : Option (Sys T A) :=
  if s.panic then none
  else match a, s.cur with
  | .create newguy, some t =>
    if (s.forking t).isSome ∨ newguy ∈ s.live ∨ newguy ∈ s.making.map Prod.snd then none
    else
      match threadCreate heap s.calls with
      | (true, n) => some { s with calls := n, making := (t, newguy) :: s.making }
      | (false, n) => some { s with calls := n }
  | .finish, some t => (s.forking t).map fun p => s.finishFork heap p
  | .yield, some t => some (s.stashReady heap t)
  | .sleep a, some t => some (s.stashSleep heap t a)
  -- `thread_fork` may sleep, for the lock in `VOP_INCREF`, but its thread does not end there
  | .exit, some t => if (s.forking t).isSome then none else some (s.stashZomb heap t)
  | .wakeup a, _ =>
    if s.interruptible then some (s.wakeupLoop heap a s.sleepers.guys.length 0) else none
  | .wakeone a, _ =>
    if s.interruptible then some (s.wakeoneLoop heap a s.sleepers.guys.length 0) else none
  | .dispatch, none =>
    if s.runqueue.empty then none
    else
      match qRemhead s.runqueue with
      | (some t, q) => some ({ s with cur := some t, idle := false, runqueue := q }.resumed t)
      | (none, _) => some { s with panic := true }
  | _, _ => none

/-- The states a run from boot can be in whose steps all meet `ok`. -/
inductive Reach (ok : Sys T A → Act T A → Prop) (me : T) : Sys T A → Prop
  | boot : Reach ok me (boot me)
  | step {s s' : Sys T A} (a : Act T A) (h : Reach ok me s) (ha : ok s a)
      (hs : s.step heap a = some s') : Reach ok me s'

/-- The steps of `as`, one after the other. -/
def runs (s : Sys T A) : List (Act T A) → Option (Sys T A)
  | [] => some s
  | a :: as => (s.step heap a).bind fun s => runs s as

end Machine

theorem Reach.runs {T A : Type} [DecidableEq T] [DecidableEq A] {heap : Nat → Bool} {me : T}
    {s s' : Sys T A} {as : List (Act T A)} (h : Reach heap (fun _ _ => True) me s)
    (hs : s.runs heap as = some s') : Reach heap (fun _ _ => True) me s' := by
  induction as generalizing s with
  | nil =>
    cases hs
    exact h
  | cons a as ih =>
    obtain ⟨s₁, hs₁, hs⟩ := Option.bind_eq_some_iff.mp hs
    exact ih (h.step a trivial hs₁) hs

end Sys

end Os161.Switch

import Mathlib.Data.List.Basic
import Mathlib.Tactic.Common
import Mathlib.Tactic.Ring
import Mathlib.Data.ZMod.Defs

/-! # Threads on one processor

`kern/thread/thread.c`, `scheduler.c` and `kern/thread/synch.c`. A thread is the list of
statements it has still to execute; the machine executes one statement of the
current thread at a time. The processor has one interrupt level for all
threads, and each call keeps the level it has to restore on the stack of its
thread. -/
namespace Os161.Threads

/-- Sleep addresses: the primitives themselves. -/
inductive Addr (S L C : Type) where
  | sem (s : S)
  | lock (l : L)
  | cv (c : C)
  deriving DecidableEq

inductive Panic where
  | semP | semV
  | lockDeadlock | lockNotOwner
  | cvNotHolder
  deriving DecidableEq

/-- Statements of `synch.c` and `thread.c`. `sleep` is `thread_sleep` up to the
switch and `wake` what is left of it afterwards; `hold` leaves the answer of
`lock_do_i_hold` for the statement that tests it. -/
inductive Stmt (S L C : Type) where
  | splhigh
  | splx
  | sleep (a : Addr S L C)
  | wake
  | wakeup (a : Addr S L C)
  | wakeone (a : Addr S L C)
  | whileZero (s : S)
  | assertCount (s : S) (m : Panic)
  | decCount (s : S)
  | incCount (s : S)
  | hold (l : L)
  | panicIf (held : Bool) (m : Panic)
  | whileOwned (l : L)
  | setOwner (l : L)
  | clearOwner (l : L)
  deriving DecidableEq

section Code

variable {S L C : Type}

def P (s : S) : List (Stmt S L C) :=
  [.splhigh, .whileZero s, .assertCount s .semP, .decCount s, .splx]

def V (s : S) : List (Stmt S L C) :=
  [.splhigh, .incCount s, .assertCount s .semV, .wakeup (.sem s), .splx]

def lockDoIHold (l : L) : List (Stmt S L C) := [.splhigh, .hold l, .splx]

def lockAcquire (l : L) : List (Stmt S L C) :=
  .splhigh :: lockDoIHold l ++ [.panicIf true .lockDeadlock, .whileOwned l, .setOwner l, .splx]

def lockRelease (l : L) : List (Stmt S L C) :=
  [.hold l, .panicIf false .lockNotOwner, .splhigh, .clearOwner l, .wakeup (.lock l), .splx]

def cvWait (c : C) (l : L) : List (Stmt S L C) :=
  .splhigh :: lockRelease l ++ [.sleep (.cv c), .wake] ++ lockAcquire l ++ [.splx]

def cvSignal (c : C) (l : L) : List (Stmt S L C) :=
  .splhigh :: lockDoIHold l ++ [.panicIf false .cvNotHolder, .wakeone (.cv c), .splx]

def cvBroadcast (c : C) (l : L) : List (Stmt S L C) :=
  .splhigh :: lockDoIHold l ++ [.panicIf false .cvNotHolder, .wakeup (.cv c), .splx]

end Code

/-- The calls a thread can make. -/
inductive Call (S L C : Type) where
  | p (s : S)
  | v (s : S)
  | acquire (l : L)
  | release (l : L)
  | doIHold (l : L)
  | wait (c : C) (l : L)
  | signal (c : C) (l : L)
  | broadcast (c : C) (l : L)
  deriving DecidableEq

def Call.code {S L C : Type} : Call S L C → List (Stmt S L C)
  | .p s => P s
  | .v s => V s
  | .acquire l => lockAcquire l
  | .release l => lockRelease l
  | .doIHold l => lockDoIHold l
  | .wait c l => cvWait c l
  | .signal c l => cvSignal c l
  | .broadcast c l => cvBroadcast c l

/-- The machine. `cur` is `curthread`, none while the scheduler runs; `high` says
that `curspl` is above 0. `saved t` are the levels the pending calls of `t` will
restore, innermost first. -/
structure State (T S L C : Type) where
  cur : Option T
  ready : List T
  sleepers : List T
  sleepaddr : T → Option (Addr S L C)
  code : T → List (Stmt S L C)
  saved : T → List Bool
  held : T → Bool
  high : Bool
  count : S → Int
  owner : L → Option T
  panic : Option Panic

section Machine

variable {T S L C : Type} [DecidableEq T] [DecidableEq S] [DecidableEq L] [DecidableEq C]

/-- A function with one value replaced. -/
def upd {α β : Type} [DecidableEq α] (f : α → β) (a : α) (b : β) : α → β :=
  fun x => if x = a then b else f x

namespace State

/-- `thread_wakeup`. -/
def wakeup (s : State T S L C) (a : Addr S L C) : State T S L C :=
  { s with
    sleepers := s.sleepers.filter fun t => s.sleepaddr t ≠ some a
    ready := s.ready ++ s.sleepers.filter fun t => s.sleepaddr t = some a }

/-- `thread_wakeone`. -/
def wakeone (s : State T S L C) (a : Addr S L C) : State T S L C :=
  match s.sleepers.find? fun t => s.sleepaddr t = some a with
  | none => s
  | some t => { s with sleepers := s.sleepers.erase t, ready := s.ready ++ [t] }

/-- `sem->count++`, with the wrap-around of `int`. -/
def incCount (s : State T S L C) (x : S) : State T S L C :=
  { s with count := upd s.count x (Int.bmod (s.count x + 1) (2 ^ 32)) }

/-- One statement of thread `t`; `rest` follows it. -/
def exec (s : State T S L C) (t : T) (rest : List (Stmt S L C)) : Stmt S L C → State T S L C
  | .splhigh =>
    { s with code := upd s.code t rest, saved := upd s.saved t (s.high :: s.saved t), high := true }
  | .splx =>
    { s with
      code := upd s.code t rest
      saved := upd s.saved t (s.saved t).tail
      high := (s.saved t).headD false }
  | .sleep a =>
    { s with
      code := upd s.code t rest
      sleepaddr := upd s.sleepaddr t (some a)
      sleepers := s.sleepers ++ [t]
      cur := none }
  | .wake => { s with code := upd s.code t rest, sleepaddr := upd s.sleepaddr t none }
  | .wakeup a => { s with code := upd s.code t rest }.wakeup a
  | .wakeone a => { s with code := upd s.code t rest }.wakeone a
  | .whileZero x =>
    if s.count x = 0 then
      { s with code := upd s.code t (.sleep (.sem x) :: .wake :: .whileZero x :: rest) }
    else { s with code := upd s.code t rest }
  | .assertCount x m =>
    if s.count x > 0 then { s with code := upd s.code t rest } else { s with panic := some m }
  | .decCount x => { s with code := upd s.code t rest, count := upd s.count x (s.count x - 1) }
  | .incCount x => { s with code := upd s.code t rest }.incCount x
  | .hold l => { s with code := upd s.code t rest, held := upd s.held t (s.owner l = some t) }
  | .panicIf b m =>
    if s.held t = b then { s with panic := some m } else { s with code := upd s.code t rest }
  | .whileOwned l =>
    if s.owner l ≠ none then
      { s with code := upd s.code t (.sleep (.lock l) :: .wake :: .whileOwned l :: rest) }
    else { s with code := upd s.code t rest }
  | .setOwner l => { s with code := upd s.code t rest, owner := upd s.owner l (some t) }
  | .clearOwner l => { s with code := upd s.code t rest, owner := upd s.owner l none }

end State

/-- What happens next: the current thread executes a statement or, having none
left, makes a call or exits; a timer interrupt preempts it; a device interrupt
calls `V`; the scheduler picks the next thread. -/
inductive Act (S L C : Type) where
  | exec
  | call (c : Call S L C)
  | exit
  | preempt
  | interrupt (s : S)
  | dispatch
  deriving DecidableEq

namespace State

/-- A preempted thread goes through `thread_yield` inside the trap handler, which
restores the level on its return. -/
def preempt (s : State T S L C) (t : T) : State T S L C :=
  { s with
    code := upd s.code t (.splx :: s.code t)
    saved := upd s.saved t (s.high :: s.saved t)
    high := true
    ready := s.ready ++ [t]
    cur := none }

/-- `V` in an interrupt handler. -/
def interruptV (s : State T S L C) (x : S) : State T S L C :=
  let s := s.incCount x
  if s.count x > 0 then s.wakeup (.sem x) else { s with panic := some .semV }

/-- Interrupts come in while they are enabled, and in the idle loop. -/
def interruptible (s : State T S L C) : Bool :=
  match s.cur with
  | some _ => !s.high
  | none => s.ready.isEmpty

/-- The next state, if this can happen now. -/
def step (s : State T S L C) (a : Act S L C) : Option (State T S L C) :=
  if s.panic.isSome then none
  else match a, s.cur with
  | .exec, some t =>
    match s.code t with
    | [] => none
    | st :: rest => some (s.exec t rest st)
  | .call c, some t =>
    if s.code t = [] then some { s with code := upd s.code t c.code } else none
  | .exit, some t => if s.code t = [] then some { s with high := true, cur := none } else none
  | .preempt, some t => if s.high then none else some (s.preempt t)
  | .interrupt x, _ => if s.interruptible then some (s.interruptV x) else none
  | .dispatch, none =>
    match s.ready with
    | [] => none
    | t :: rest => some { s with ready := rest, cur := some t }
  | _, _ => none

/-- What `step` can do, one constructor for each event. -/
inductive Stepped (s : State T S L C) : Act S L C → State T S L C → Prop
  | exec {t : T} {st : Stmt S L C} {c : List (Stmt S L C)} (hc : s.cur = some t)
      (hcode : s.code t = st :: c) : Stepped s .exec (s.exec t c st)
  | call {t : T} (c : Call S L C) (hc : s.cur = some t) (hcode : s.code t = []) :
      Stepped s (.call c) { s with code := upd s.code t c.code }
  | exit {t : T} (hc : s.cur = some t) (hcode : s.code t = []) :
      Stepped s .exit { s with high := true, cur := none }
  | preempt {t : T} (hc : s.cur = some t) (hh : s.high = false) :
      Stepped s .preempt (s.preempt t)
  | interrupt (x : S) (hi : s.interruptible = true) : Stepped s (.interrupt x) (s.interruptV x)
  | dispatch {t : T} {rest : List T} (hc : s.cur = none) (hr : s.ready = t :: rest) :
      Stepped s .dispatch { s with ready := rest, cur := some t }

theorem step_cases {s s' : State T S L C} {a : Act S L C} (hs : s.step a = some s') :
    s.panic = none ∧ Stepped s a s' := by
  unfold step at hs
  split at hs
  · cases hs
  next hp =>
  refine ⟨by simpa using hp, ?_⟩
  split at hs
  · next t hc =>
    split at hs
    · cases hs
    · next st c hcode =>
      cases hs
      exact .exec hc hcode
  · next c t hc =>
    split at hs
    · next hcode =>
      cases hs
      exact .call c hc hcode
    · cases hs
  · next t hc =>
    split at hs
    · next hcode =>
      cases hs
      exact .exit hc hcode
    · cases hs
  · next t hc =>
    split at hs
    · cases hs
    · next hh =>
      cases hs
      exact .preempt hc (by simpa using hh)
  · split at hs
    · next hi =>
      cases hs
      exact .interrupt _ hi
    · cases hs
  · next hc =>
    split at hs
    · cases hs
    · next t rest hr =>
      cases hs
      exact .dispatch hc hr
  · cases hs

theorem step_exec_eq {s s' : State T S L C} {t : T} {st : Stmt S L C} {c : List (Stmt S L C)}
    (hs : s.step .exec = some s') (hc : s.cur = some t) (hcode : s.code t = st :: c) :
    s' = s.exec t c st := by
  cases (step_cases hs).2 with
  | exec hc' hcode' =>
    rw [hc] at hc'
    cases hc'
    rw [hcode] at hcode'
    cases hcode'
    rfl

/-- A thread with code left and interrupts off goes on. -/
theorem step_exec {s s' : State T S L C} {a : Act S L C} {t : T} (hs : s.step a = some s')
    (hc : s.cur = some t) (hh : s.high = true) (hcode : s.code t ≠ []) : a = .exec := by
  cases (step_cases hs).2 with
  | exec => rfl
  | call c hc' hcode' | exit hc' hcode' =>
    rw [hc] at hc'
    cases hc'
    exact absurd hcode' hcode
  | preempt _ hl =>
    rw [hh] at hl
    cases hl
  | interrupt x hi =>
    simp only [interruptible, hc, hh] at hi
    cases hi
  | dispatch hc' =>
    rw [hc] at hc'
    cases hc'

/-- The state the threads start in: made runnable by `thread_fork`, each enables
interrupts (`mi_threadstart`) and goes on from there. -/
def initial (threads : List T) (count : S → Int) : State T S L C where
  cur := none
  ready := threads
  sleepers := []
  sleepaddr := fun _ => none
  code := fun _ => [.splx]
  saved := fun _ => [false]
  held := fun _ => false
  high := true
  count := count
  owner := fun _ => none
  panic := none

end State

/-- A run, with what happened at each state. -/
inductive Run : State T S L C → List (State T S L C × Act S L C) → State T S L C → Prop
  | nil (s : State T S L C) : Run s [] s
  | snoc {s s₁ s' : State T S L C} {tr : List (State T S L C × Act S L C)} {a : Act S L C}
      (h : Run s tr s₁) (hs : s₁.step a = some s') : Run s (tr ++ [(s₁, a)]) s'

/-- Takes the actions `as` as far as they can happen. -/
def State.acts (s : State T S L C) : List (Act S L C) →
    List (State T S L C × Act S L C) × State T S L C
  | [] => ([], s)
  | a :: as =>
    match s.step a with
    | none => ([], s)
    | some s₁ => ((s, a) :: (s₁.acts as).1, (s₁.acts as).2)

theorem Run.cons {s s₁ s' : State T S L C} {a : Act S L C} {tr : List (State T S L C × Act S L C)}
    (hs : s.step a = some s₁) (hr : Run s₁ tr s') : Run s ((s, a) :: tr) s' := by
  induction hr with
  | nil => exact .snoc (.nil s) hs
  | snoc _ hs' ih => exact .snoc ih hs'

theorem Run.split {s s' : State T S L C} {tr₁ tr₂ : List (State T S L C × Act S L C)}
    (hr : Run s (tr₁ ++ tr₂) s') : ∃ s₁, Run s tr₁ s₁ ∧ Run s₁ tr₂ s' := by
  generalize htr : tr₁ ++ tr₂ = tr at hr
  induction hr generalizing tr₂ with
  | nil =>
    obtain ⟨rfl, rfl⟩ := List.append_eq_nil_iff.mp htr
    exact ⟨s, .nil s, .nil s⟩
  | @snoc s₁ s' tr a hr hs ih =>
    rcases List.eq_nil_or_concat tr₂ with rfl | ⟨tr₃, e, rfl⟩
    · rw [List.append_nil] at htr
      exact ⟨s', htr ▸ .snoc hr hs, .nil s'⟩
    · rw [List.concat_eq_append, ← List.append_assoc] at htr
      obtain ⟨htr, he⟩ := List.append_inj' htr rfl
      obtain ⟨s₂, h₁, h₂⟩ := ih htr
      obtain rfl := List.singleton_inj.mp he
      exact ⟨s₂, h₁, List.concat_eq_append ▸ .snoc h₂ hs⟩

theorem Run.eq_of_nil {s s' : State T S L C} {tr : List (State T S L C × Act S L C)}
    (hr : Run s tr s') (h : tr = []) : s' = s := by
  cases hr with
  | nil => rfl
  | snoc => simp at h

theorem Run.head {s s' : State T S L C} {e : State T S L C × Act S L C}
    {tr : List (State T S L C × Act S L C)} (hr : Run s (e :: tr) s') :
    e.1 = s ∧ ∃ s₁, s.step e.2 = some s₁ ∧ Run s₁ tr s' := by
  generalize htr : e :: tr = tr' at hr
  induction hr generalizing tr with
  | nil => cases htr
  | @snoc s₁ s' tr₁ a hr hs ih =>
    cases tr₁ with
    | nil =>
      cases htr
      obtain rfl := hr.eq_of_nil rfl
      exact ⟨rfl, s', hs, .nil s'⟩
    | cons e' tr₁ =>
      cases htr
      obtain ⟨he, s₂, h₁, h₂⟩ := ih rfl
      exact ⟨he, s₂, h₁, .snoc h₂ hs⟩

theorem State.run_acts (s : State T S L C) (as : List (Act S L C)) :
    Run s (s.acts as).1 (s.acts as).2 := by
  induction as generalizing s with
  | nil => exact .nil s
  | cons a as ih =>
    unfold State.acts
    split
    · exact .nil s
    · next s₁ hs => exact .cons hs (ih s₁)

end Machine

end Os161.Threads

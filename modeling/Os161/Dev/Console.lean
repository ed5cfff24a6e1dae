import Mathlib.Logic.Function.Basic

/-! # The console on a serial port

`console.c` on `lser.c`, after the console has been attached: threads in `putch` and `getch`, what
runs with interrupts off (`lser_irq`, and `putch` by polling), and the device, which goes on at any
time. `P` and `V` are those of `synch.c`: one step each, but a `P` that finds no unit sleeps, and
tests again after the `V` that wakes it. `T` are the threads and `B` the characters. -/
namespace Os161.Console

/-- A call of `putch`. -/
structure Put (B : Type) where
  id : Nat
  ch : B
  deriving DecidableEq

/-- Where a thread is, with interrupts on. -/
inductive Pc (B : Type) where
  | out
  | putP (c : Put B)
  | putSleep (c : Put B)
  | putSend (c : Put B)
  | getP
  | getSleep
  | getRead
  deriving DecidableEq

/-- What runs with interrupts off: `lser_irq` by its accesses to the registers and its calls, or
`lser_writepolled` by its loops. -/
inductive Masked (B : Type) where
  | irqWirq
  | irqClear
  | irqRirq (clearToWrite : Bool)
  | irqChar (clearToWrite : Bool)
  | irqAck (clearToWrite : Bool) (ch : B)
  | irqStart (clearToWrite : Bool) (gotARead : Option B)
  | irqInput (gotARead : Option B)
  | polled (c : Put B)
  | polledBusy (c : Put B)
  | polledClear (c : Put B)
  | polledSend (c : Put B) (irqpending : Bool)
  | polledWait (irqpending : Bool)
  | polledReady

/-- `cs_wsem`, `cs_rsem`, `cs_gotchar`, `ls_wbusy`; the character the device is at, the active bits
of its two registers and the character it has read; the threads; a failed `panic` test, and a
character stored while the device was at another. The rest is history, which no step depends on:
the calls of `putch` and those whose character the device took, the thread with the unit of
`cs_wsem`, the characters given to `con_input` and those that `getch` returned, and the threads
between the `P` and the read. -/
structure State (T B : Type) where
  wsem : Nat
  rsem : Nat
  gotchar : B
  wbusy : Bool
  inflight : Option (Put B)
  wirqActive : Bool
  rirqActive : Bool
  charReg : B
  pc : T → Pc B
  masked : Option (Masked B)
  panicked : Bool
  overrun : Bool
  nextId : Nat
  passed : List (Put B)
  written : List (Put B)
  holder : Option T
  delivered : List B
  returned : List B
  readers : List T

/-- Calls with interrupts on and off, the next step of a thread or of what runs with interrupts
off, an interrupt, and the device: it is done with a character, or one is typed. -/
inductive Act (T B : Type) where
  | putch (t : T) (ch : B)
  | putchMasked (ch : B)
  | getch (t : T)
  | thread (t : T)
  | masked
  | interrupt
  | complete
  | typed (ch : B)

section Code

variable {T B : Type}

/-- After `config_con`; `ch` stands for the 0 in the cell, and for what the register holds. -/
def boot (ch : B) : State T B where
  wsem := 1
  rsem := 0
  gotchar := ch
  wbusy := false
  inflight := none
  wirqActive := false
  rirqActive := false
  charReg := ch
  pc _ := .out
  masked := none
  panicked := false
  overrun := false
  nextId := 0
  passed := []
  written := []
  holder := none
  delivered := []
  returned := []
  readers := []

def Pc.wakePut : Pc B → Pc B
  | .putSleep c => .putP c
  | p => p

def Pc.wakeGet : Pc B → Pc B
  | .getSleep => .getP
  | p => p

namespace State

/-- `con_start`. -/
def conStart (s : State T B) : State T B :=
  { s with wsem := s.wsem + 1, pc := fun t => (s.pc t).wakePut }

def conInput (s : State T B) (ch : B) : State T B :=
  { s with
    gotchar := ch, rsem := s.rsem + 1, pc := fun t => (s.pc t).wakeGet,
    delivered := s.delivered ++ [ch] }

/-- A store to the character register. While the device is at a character, it is lost. -/
def storeChar (s : State T B) (c : Put B) : State T B :=
  match s.inflight with
  | none => { s with inflight := some c, written := s.written ++ [c] }
  | some _ => { s with overrun := true }

/-- A store of `LSER_IRQ_ENABLE` to the write interrupt register. -/
def clearReady (s : State T B) : State T B := { s with wirqActive := false }

/-- The next step of `lser_irq` or `lser_writepolled`. A turn of a loop that finds the device not
ready is no step. -/
def maskedStep (s : State T B) : Masked B → Option (State T B)
  | .irqWirq =>
    some (if s.wirqActive then { s with wbusy := false, masked := some .irqClear }
      else { s with masked := some (.irqRirq false) })
  | .irqClear => some { s.clearReady with masked := some (.irqRirq true) }
  | .irqRirq ctw =>
    some { s with masked := some (if s.rirqActive then .irqChar ctw else .irqStart ctw none) }
  | .irqChar ctw => some { s with masked := some (.irqAck ctw s.charReg) }
  | .irqAck ctw ch =>
    some { s with rirqActive := false, masked := some (.irqStart ctw (some ch)) }
  | .irqStart ctw got =>
    some { (if ctw then s.conStart else s) with masked := some (.irqInput got) }
  | .irqInput got =>
    some { (match got with
      | some ch => s.conInput ch
      | none => s) with masked := none }
  | .polled c =>
    some { s with masked := some (if s.wbusy then .polledBusy c else .polledSend c false) }
  | .polledBusy c => if s.wirqActive then some { s with masked := some (.polledClear c) } else none
  | .polledClear c => some { s.clearReady with masked := some (.polledSend c true) }
  | .polledSend c irqpending =>
    some { s.storeChar c with masked := some (.polledWait irqpending) }
  | .polledWait irqpending =>
    if s.wirqActive then some { s with masked := if irqpending then none else some .polledReady }
    else none
  | .polledReady => some { s.clearReady with masked := none }

variable [DecidableEq T]

/-- Thread `t` goes on at `p`. -/
def goto (s : State T B) (t : T) (p : Pc B) : State T B := { s with pc := Function.update s.pc t p }

/-- `lser_write`. -/
def lserWrite (s : State T B) (c : Put B) : State T B :=
  if s.wbusy then { s with panicked := true } else { s with wbusy := true }.storeChar c

/-- The next step of a thread in `putch_intr` or `getch_intr`. -/
def threadStep (s : State T B) (t : T) : Option (State T B) :=
  match s.pc t with
  | .out => none
  | .putP c =>
    some (if s.wsem = 0 then s.goto t (.putSleep c)
      else { s with wsem := s.wsem - 1, holder := some t }.goto t (.putSend c))
  | .putSleep _ => none
  | .putSend c => some ({ s with holder := none }.lserWrite c |>.goto t .out)
  | .getP =>
    some (if s.rsem = 0 then s.goto t .getSleep
      else { s with rsem := s.rsem - 1, readers := t :: s.readers }.goto t .getRead)
  | .getSleep => none
  | .getRead =>
    some ({ s with
      returned := s.returned ++ [s.gotchar], readers := s.readers.erase t }.goto t .out)

/-- A new call of `putch`. -/
def call (s : State T B) (ch : B) : State T B :=
  { s with nextId := s.nextId + 1, passed := s.passed ++ [⟨s.nextId, ch⟩] }

end State

/-- With interrupts off nothing runs but what turned them off, and the device. The port interrupts
while one of its registers is active. -/
def step [DecidableEq T] (s : State T B) (a : Act T B) : Option (State T B) :=
  if s.panicked then none
  else
    match a, s.masked with
    | .complete, _ =>
      s.inflight.map fun _ => { s with inflight := none, wirqActive := true }
    | .typed ch, _ => some { s with rirqActive := true, charReg := ch }
    | .masked, some m => s.maskedStep m
    | .putch t ch, none =>
      match s.pc t with
      | .out => some ((s.call ch).goto t (.putP ⟨s.nextId, ch⟩))
      | _ => none
    | .putchMasked ch, none =>
      some { s.call ch with masked := some (.polled ⟨s.nextId, ch⟩) }
    | .getch t, none =>
      match s.pc t with
      | .out => some (s.goto t .getP)
      | _ => none
    | .thread t, none => s.threadStep t
    | .interrupt, none =>
      if s.wirqActive ∨ s.rirqActive then some { s with masked := some .irqWirq } else none
    | _, _ => none

end Code

/-! ## What a step is -/

section Steps

variable {T B : Type} [DecidableEq T] {s s' : State T B}

inductive ThreadTook (s : State T B) (t : T) : State T B → Prop
  | putSleep {c : Put B} (hp : s.pc t = .putP c) (hw : s.wsem = 0) :
      ThreadTook s t (s.goto t (.putSleep c))
  | acquire {c : Put B} (hp : s.pc t = .putP c) (hw : s.wsem ≠ 0) :
      ThreadTook s t ({ s with wsem := s.wsem - 1, holder := some t }.goto t (.putSend c))
  | send {c : Put B} (hp : s.pc t = .putSend c) :
      ThreadTook s t ({ s with holder := none }.lserWrite c |>.goto t .out)
  | getSleep (hp : s.pc t = .getP) (hr : s.rsem = 0) : ThreadTook s t (s.goto t .getSleep)
  | take (hp : s.pc t = .getP) (hr : s.rsem ≠ 0) :
      ThreadTook s t ({ s with rsem := s.rsem - 1, readers := t :: s.readers }.goto t .getRead)
  | read (hp : s.pc t = .getRead) :
      ThreadTook s t ({ s with
        returned := s.returned ++ [s.gotchar], readers := s.readers.erase t }.goto t .out)

theorem threadStep_took {t : T} (h : s.threadStep t = some s') : ThreadTook s t s' := by
  unfold State.threadStep at h
  cases hp : s.pc t with
  | out | putSleep | getSleep => simp only [hp, reduceCtorEq] at h
  | putP c =>
    simp only [hp] at h
    obtain rfl := Option.some.inj h
    split
    · next hw => exact .putSleep hp hw
    · next hw => exact .acquire hp hw
  | putSend c =>
    simp only [hp] at h
    obtain rfl := Option.some.inj h
    exact .send hp
  | getP =>
    simp only [hp] at h
    obtain rfl := Option.some.inj h
    split
    · next hr => exact .getSleep hp hr
    · next hr => exact .take hp hr
  | getRead =>
    simp only [hp] at h
    obtain rfl := Option.some.inj h
    exact .read hp

inductive Took (s : State T B) : Act T B → State T B → Prop
  | complete {c : Put B} (hi : s.inflight = some c) :
      Took s .complete { s with inflight := none, wirqActive := true }
  | typed (ch : B) : Took s (.typed ch) { s with rirqActive := true, charReg := ch }
  | masked {s' : State T B} {m : Masked B} (hm : s.masked = some m)
      (h : s.maskedStep m = some s') : Took s .masked s'
  | putch {t : T} (ch : B) (hm : s.masked = none) (hp : s.pc t = .out) :
      Took s (.putch t ch) ((s.call ch).goto t (.putP ⟨s.nextId, ch⟩))
  | putchMasked (ch : B) (hm : s.masked = none) :
      Took s (.putchMasked ch) { s.call ch with masked := some (.polled ⟨s.nextId, ch⟩) }
  | getch {t : T} (hm : s.masked = none) (hp : s.pc t = .out) : Took s (.getch t) (s.goto t .getP)
  | thread {s' : State T B} {t : T} (hm : s.masked = none) (h : ThreadTook s t s') :
      Took s (.thread t) s'
  | interrupt (hm : s.masked = none) : Took s .interrupt { s with masked := some .irqWirq }

theorem step_took {a : Act T B} (h : step s a = some s') : Took s a s' := by
  unfold step at h
  obtain ⟨-, h⟩ := Option.ite_none_left_eq_some.mp h
  split at h
  · obtain ⟨c, hi, rfl⟩ := Option.map_eq_some_iff.mp h
    exact .complete hi
  · obtain rfl := Option.some.inj h
    exact .typed _
  · exact .masked ‹_› h
  · split at h
    · obtain rfl := Option.some.inj h
      exact .putch _ ‹_› ‹_›
    · cases h
  · obtain rfl := Option.some.inj h
    exact .putchMasked _ ‹_›
  · split at h
    · obtain rfl := Option.some.inj h
      exact .getch ‹_› ‹_›
    · cases h
  · exact .thread ‹_› (threadStep_took h)
  · obtain ⟨-, h⟩ := Option.ite_none_right_eq_some.mp h
    obtain rfl := Option.some.inj h
    exact .interrupt ‹_›
  · cases h

end Steps

end Os161.Console

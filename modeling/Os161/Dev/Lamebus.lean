import Mathlib.Logic.Function.Basic

/-! # Dispatching interrupts

`lamebus_interrupt`. Interrupts are off in it, so only one call of it runs at a time, but a handler
may switch to other threads, whose calls then come before it goes on. `T` are the threads. -/
namespace Os161.Lamebus

def LB_NSLOTS : Nat := 32

/-- What the interrupt reads of `struct lamebus_softc`: the slots with a driver, and those with a
handler. -/
structure Softc where
  lsSlotsinuse : UInt32
  lsIrqfuncs : Nat → Bool

/-- The variables of a call. -/
structure Call where
  irqs : UInt32
  mask : UInt32
  slot : Nat
  dudsThisTime : Nat

/-- What a round of the loop makes of its slot. -/
inductive Look where
  | clear | dud | handler
  deriving DecidableEq

/-- What happens in a call: the reads of the register, the stray interrupt, the slots with what
was known of the drivers, the end of a row of duds, and the return with the count. -/
inductive Event where
  | enter (irqs : UInt32)
  | reload (irqs : UInt32)
  | stray
  | look (slot : Nat) (sc : Softc) (l : Look)
  | reset
  | ret (duds : Nat)

/-- `duds` is static. The trace is history, newest first, which no step depends on. -/
structure State (T : Type) where
  sc : Softc
  duds : Nat
  cpu : Option (T × Call)
  inHandler : T → Option Call
  panicked : Bool
  trace : List (T × Event)

/-- An interrupt with what the register has then, the next round of the call on the CPU, a handler
that returns, and whatever drivers do with their slots. -/
inductive Act (T : Type) where
  | interrupt (t : T) (irqs : UInt32)
  | round
  | handled (t : T) (irqs : UInt32)
  | drivers (sc : Softc)

section Code

variable {T : Type}

def boot (sc : Softc) : State T := ⟨sc, 0, none, fun _ => none, false, []⟩

def State.log (s : State T) (t : T) (e : Event) : State T := { s with trace := (t, e) :: s.trace }

def Call.next (c : Call) : Call := { c with mask := c.mask <<< 1, slot := c.slot + 1 }

def Call.dud (c : Call) : Call := { c with dudsThisTime := c.dudsThisTime + 1 }

/-- The loop before its first round. -/
def Call.start (irqs : UInt32) : Call := ⟨irqs, 1, 0, 0⟩

/-- The code up to the loop. -/
def State.interrupt (s : State T) (t : T) (irqs : UInt32) : State T :=
  let s := s.log t (.enter irqs)
  if irqs = 0 then
    -- it returns here, and not behind the test at the end
    let s := { s with duds := s.duds + 1 }.log t .stray
    s.log t (.ret s.duds)
  else { s with cpu := some (t, .start irqs) }

/-- The tests behind the loop. -/
def State.finish (s : State T) (t : T) (c : Call) : State T :=
  let s := { s with cpu := none }
  let s := if c.dudsThisTime = 0 ∧ s.duds > 0 then { s with duds := 0 }.log t .reset else s
  if s.duds > 10000 then { s with panicked := true } else s.log t (.ret s.duds)

variable [DecidableEq T]

/-- A round of the loop, which ends in the handler if there is one. -/
def State.round (s : State T) (t : T) (c : Call) : State T :=
  if c.irqs &&& c.mask = 0 then
    { s with cpu := some (t, c.next) }.log t (.look c.slot s.sc .clear)
  else if s.sc.lsSlotsinuse &&& c.mask = 0 ∨ s.sc.lsIrqfuncs c.slot = false then
    { s with duds := s.duds + 1, cpu := some (t, c.dud.next) }.log t (.look c.slot s.sc .dud)
  else
    { s with cpu := none, inHandler := Function.update s.inHandler t (some c) }.log t
      (.look c.slot s.sc .handler)

/-- The register is read again behind the handler. -/
def State.handled (s : State T) (t : T) (c : Call) (irqs : UInt32) : State T :=
  { s with
    cpu := some (t, { c with irqs }.next),
    inHandler := Function.update s.inHandler t none }.log t (.reload irqs)

def step (s : State T) (a : Act T) : Option (State T) :=
  if s.panicked then none
  else
    match a, s.cpu with
    | .round, some (t, c) =>
      some (if c.slot < LB_NSLOTS then s.round t c else s.finish t c)
    | .interrupt t irqs, none =>
      match s.inHandler t with
      | none => some (s.interrupt t irqs)
      | some _ => none
    | .handled t irqs, none => (s.inHandler t).map fun c => s.handled t c irqs
    | .drivers sc, none => some { s with sc }
    | _, _ => none

end Code

end Os161.Lamebus

import Mathlib.Data.Nat.Bitwise
import Mathlib.Tactic.Common
import Os161.Dev.Lamebus
import Os161.Lib.Runs

/-! # Counting dud interrupts

Which handlers `lamebus_interrupt` calls and what becomes of its count, along every run, and the
exit that does not test the count. -/
namespace Os161.Lamebus
open Os161.Runs

variable {T : Type} [DecidableEq T]

/-! ## The history of a call -/

/-- The events of the last call of a thread, newest first. -/
def lastCall (t : T) : List (T × Event) → List Event
  | [] => []
  | (u, e) :: tr =>
    if u = t then
      match e with
      | .enter irqs => [.enter irqs]
      | e => e :: lastCall t tr
    else lastCall t tr

/-- The register as the call read it last. -/
def lastRead : List Event → UInt32
  | [] => 0
  | .enter irqs :: _ => irqs
  | .reload irqs :: _ => irqs
  | _ :: es => lastRead es

/-- A condition that counts as a dud. -/
def Event.isDud : Event → Bool
  | .stray => true
  | .look _ _ .dud => true
  | _ => false

/-- The dud conditions since the last reset. -/
def dudsSince : List (T × Event) → Nat
  | [] => 0
  | (_, .reset) :: _ => 0
  | (_, e) :: tr => dudsSince tr + if e.isDud then 1 else 0

/-- The slot signals an interrupt. -/
def Asserted (irqs : UInt32) (slot : Nat) : Prop := irqs.toNat.testBit slot = true

/-- A driver uses the slot and has a handler. -/
def Served (sc : Softc) (slot : Nat) : Prop :=
  sc.lsSlotsinuse.toNat.testBit slot = true ∧ sc.lsIrqfuncs slot = true

/-- What may happen to a call of `t` behind the history `tr`. -/
def Allowed (t : T) (tr : List (T × Event)) : Event → Prop
  | .enter _ | .reload _ => True
  | .stray => lastRead (lastCall t tr) = 0
  | .look slot _ .clear => slot < LB_NSLOTS ∧ ¬ Asserted (lastRead (lastCall t tr)) slot
  | .look slot sc .dud =>
    slot < LB_NSLOTS ∧ Asserted (lastRead (lastCall t tr)) slot ∧ ¬ Served sc slot
  | .look slot sc .handler =>
    slot < LB_NSLOTS ∧ Asserted (lastRead (lastCall t tr)) slot ∧ Served sc slot ∧
      ∀ sc', .look slot sc' .handler ∉ lastCall t tr
  | .reset => ∀ e ∈ lastCall t tr, e.isDud = false
  | .ret duds => duds = dudsSince tr ∧ duds ≤ 10000

/-- Everything that happened was allowed when it did. -/
def Orderly : List (T × Event) → Prop
  | [] => True
  | (t, e) :: tr => Allowed t tr e ∧ Orderly tr

/-- Every call went by the rules, and `duds` is the number of dud conditions since it was reset. -/
def Accounted (s : State T) : Prop := Orderly s.trace ∧ s.duds = dudsSince s.trace

/-- A stray interrupt comes while the count may still grow. -/
def Diagnosed (s : State T) (a : Act T) : Prop := ∀ t, a = .interrupt t 0 → s.duds < 10000

/-! ## What a step does -/

/-- The steps, with what they need. -/
inductive Took (s : State T) : Act T → State T → Prop
  | round {t : T} {c : Call} (hcpu : s.cpu = some (t, c)) (hslot : c.slot < LB_NSLOTS) :
      Took s .round (s.round t c)
  | finish {t : T} {c : Call} (hcpu : s.cpu = some (t, c)) (hslot : ¬ c.slot < LB_NSLOTS) :
      Took s .round (s.finish t c)
  | interrupt {t : T} (irqs : UInt32) (hcpu : s.cpu = none) (ht : s.inHandler t = none) :
      Took s (.interrupt t irqs) (s.interrupt t irqs)
  | handled {t : T} {c : Call} (irqs : UInt32) (hcpu : s.cpu = none)
      (ht : s.inHandler t = some c) : Took s (.handled t irqs) (s.handled t c irqs)
  | drivers (sc : Softc) (hcpu : s.cpu = none) : Took s (.drivers sc) { s with sc }

theorem step_took {s s' : State T} {a : Act T} (h : step s a = some s') : Took s a s' := by
  unfold step at h
  split at h
  · cases h
  · split at h
    · next hcpu =>
      cases h
      split
      · next hslot => exact .round hcpu hslot
      · next hslot => exact .finish hcpu hslot
    · next hcpu =>
      split at h
      · next ht =>
        cases h
        exact .interrupt _ hcpu ht
      · cases h
    · next hcpu =>
      obtain ⟨c, ht, rfl⟩ := Option.map_eq_some_iff.mp h
      exact .handled _ hcpu ht
    · next hcpu =>
      cases h
      exact .drivers _ hcpu
    · cases h

/-! ## A call and its history -/

variable {t u : T} {tr : List (T × Event)} {e : Event} {c : Call} {k : Nat}

theorem lastCall_other (h : t ≠ u) : lastCall u ((t, e) :: tr) = lastCall u tr := if_neg h

theorem lastCall_enter (irqs : UInt32) : lastCall t ((t, .enter irqs) :: tr) = [.enter irqs] :=
  if_pos rfl

theorem lastCall_self (t : T) (tr : List (T × Event)) (h : ∀ irqs, e ≠ .enter irqs) :
    lastCall t ((t, e) :: tr) = e :: lastCall t tr := by
  rw [lastCall, if_pos rfl]
  exact h

/-- The variables of a call against its history; `k` is above every slot whose handler was
called. -/
structure CallOf (t : T) (c : Call) (k : Nat) (tr : List (T × Event)) : Prop where
  mask : c.mask.toNat = 2 ^ c.slot % 2 ^ 32
  read : c.irqs = lastRead (lastCall t tr)
  duds : c.dudsThisTime = (lastCall t tr).countP Event.isDud
  called : ∀ slot sc, .look slot sc .handler ∈ lastCall t tr → slot < k

theorem CallOf.other (h : CallOf u c k tr) (hne : t ≠ u) : CallOf u c k ((t, e) :: tr) := by
  refine ⟨h.mask, ?_, ?_, ?_⟩ <;> rw [lastCall_other hne]
  · exact h.read
  · exact h.duds
  · exact h.called

theorem CallOf.start (irqs : UInt32) : CallOf t (.start irqs) 0 ((t, .enter irqs) :: tr) := by
  refine ⟨rfl, ?_, ?_, fun slot sc hm => ?_⟩
  · rw [lastCall_enter]
    rfl
  · rw [lastCall_enter]
    rfl
  · rw [lastCall_enter, List.mem_singleton] at hm
    cases hm

/-- The mask moves with the slot. -/
theorem next_mask (h : c.mask.toNat = 2 ^ c.slot % 2 ^ 32) :
    c.next.mask.toNat = 2 ^ c.next.slot % 2 ^ 32 := by
  have hshift : c.next.mask.toNat = c.mask.toNat <<< 1 % 2 ^ 32 := rfl
  rw [hshift, h, Nat.shiftLeft_eq, Nat.pow_one, Nat.mod_mul_mod, ← Nat.pow_succ]
  rfl

theorem CallOf.look_clear (h : CallOf t c c.slot tr) (slot : Nat) (sc : Softc) :
    CallOf t c.next c.next.slot ((t, .look slot sc .clear) :: tr) := by
  have hlast := lastCall_self (e := .look slot sc .clear) t tr fun _ => nofun
  refine ⟨next_mask h.mask, ?_, ?_, fun slot' sc' hm => ?_⟩
  · rw [hlast]
    exact h.read
  · rw [hlast]
    exact h.duds
  · rw [hlast] at hm
    exact Nat.lt_succ_of_lt (h.called slot' sc' ((List.mem_cons.mp hm).resolve_left nofun))

theorem CallOf.look_dud (h : CallOf t c c.slot tr) (slot : Nat) (sc : Softc) :
    CallOf t c.dud.next c.dud.next.slot ((t, .look slot sc .dud) :: tr) := by
  have hlast := lastCall_self (e := .look slot sc .dud) t tr fun _ => nofun
  refine ⟨next_mask (c := c.dud) h.mask, ?_, ?_, fun slot' sc' hm => ?_⟩
  · rw [hlast]
    exact h.read
  · rw [hlast, List.countP_cons_of_pos rfl, ← h.duds]
    rfl
  · rw [hlast] at hm
    exact Nat.lt_succ_of_lt (h.called slot' sc' ((List.mem_cons.mp hm).resolve_left nofun))

theorem CallOf.look_handler (h : CallOf t c c.slot tr) (sc : Softc) :
    CallOf t c (c.slot + 1) ((t, .look c.slot sc .handler) :: tr) := by
  have hlast := lastCall_self (e := .look c.slot sc .handler) t tr fun _ => nofun
  refine ⟨h.mask, ?_, ?_, fun slot' sc' hm => ?_⟩
  · rw [hlast]
    exact h.read
  · rw [hlast]
    exact h.duds
  · rw [hlast] at hm
    rcases List.mem_cons.mp hm with heq | hm
    · cases heq
      exact Nat.lt_succ_self _
    · exact Nat.lt_succ_of_lt (h.called slot' sc' hm)

theorem CallOf.reload (h : CallOf t c (c.slot + 1) tr) (irqs : UInt32) :
    CallOf t { c with irqs }.next (c.slot + 1) ((t, .reload irqs) :: tr) := by
  have hlast := lastCall_self (e := .reload irqs) t tr fun _ => nofun
  refine ⟨next_mask (c := { c with irqs }) h.mask, ?_, ?_, fun slot' sc' hm => ?_⟩
  · rw [hlast]
    rfl
  · rw [hlast]
    exact h.duds
  · rw [hlast] at hm
    exact h.called slot' sc' ((List.mem_cons.mp hm).resolve_left nofun)

/-! ## The invariant -/

/-- Every call under way agrees with its history. A handler that runs is the one of its slot. -/
structure Inv (s : State T) : Prop where
  duds : s.duds = dudsSince s.trace
  cpu : ∀ t c, s.cpu = some (t, c) → s.inHandler t = none ∧ CallOf t c c.slot s.trace
  handler : ∀ t c, s.inHandler t = some c → CallOf t c (c.slot + 1) s.trace

variable {s s' : State T} {a : Act T}

theorem boot_inv (sc : Softc) : Inv (boot sc : State T) :=
  ⟨rfl, nofun, nofun⟩

/-- The calls in their handlers are left alone by an event of a thread that is in none. -/
theorem Inv.handlers (h : Inv s) (ht : s.inHandler t = none) {c : Call}
    (hu : s.inHandler u = some c) : CallOf u c (c.slot + 1) ((t, e) :: s.trace) := by
  refine (h.handler u c hu).other ?_
  rintro rfl
  rw [ht] at hu
  cases hu

theorem round_inv (h : Inv s) (hcpu : s.cpu = some (t, c)) : Inv (s.round t c) := by
  obtain ⟨ht, hc⟩ := h.cpu t c hcpu
  unfold State.round
  split
  · refine ⟨h.duds, ?_, fun u c' hu => h.handlers ht hu⟩
    rintro u c' heq
    cases heq
    exact ⟨ht, hc.look_clear _ _⟩
  · split
    · refine ⟨congrArg (· + 1) h.duds, ?_, fun u c' hu => h.handlers ht hu⟩
      rintro u c' heq
      cases heq
      exact ⟨ht, hc.look_dud _ _⟩
    · refine ⟨h.duds, nofun, fun u c' hu => ?_⟩
      change Function.update s.inHandler t (some c) u = some c' at hu
      by_cases hut : u = t
      · subst hut
        rw [Function.update_self] at hu
        cases hu
        exact hc.look_handler _
      · rw [Function.update_of_ne hut] at hu
        exact h.handlers ht hu

theorem handled_inv (h : Inv s) (ht : s.inHandler t = some c) (irqs : UInt32) :
    Inv (s.handled t c irqs) := by
  refine ⟨h.duds, ?_, fun u c' hu => ?_⟩
  · rintro u c' heq
    cases heq
    have hnone : Function.update s.inHandler t none t = none := Function.update_self ..
    exact ⟨hnone, (h.handler t c ht).reload irqs⟩
  · change Function.update s.inHandler t none u = some c' at hu
    by_cases hut : u = t
    · rw [hut, Function.update_self] at hu
      cases hu
    · rw [Function.update_of_ne hut] at hu
      exact (h.handler u c' hu).other (Ne.symm hut)

omit [DecidableEq T] in
/-- The three ends of a call: a reset, the panic, or the return with the count. -/
theorem finish_eq (s : State T) (t : T) (c : Call) :
    s.finish t c =
      if c.dudsThisTime = 0 ∧ s.duds > 0 then
        ({ s with cpu := none, duds := 0 }.log t .reset).log t (.ret 0)
      else if s.duds > 10000 then { s with cpu := none, panicked := true }
      else { s with cpu := none }.log t (.ret s.duds) := by
  unfold State.finish
  dsimp only
  split
  · exact if_neg (Nat.not_lt_zero 10000)
  · rfl

theorem finish_inv (h : Inv s) (hcpu : s.cpu = some (t, c)) : Inv (s.finish t c) := by
  obtain ⟨ht, -⟩ := h.cpu t c hcpu
  have hother {u : T} {c' : Call} (hu : s.inHandler u = some c') : t ≠ u := by
    rintro rfl
    cases ht.symm.trans hu
  rw [finish_eq]
  split
  · exact ⟨rfl, nofun, fun u c' hu => ((h.handler u c' hu).other (hother hu)).other (hother hu)⟩
  · split
    · exact ⟨h.duds, nofun, h.handler⟩
    · exact ⟨h.duds, nofun, fun u c' hu => (h.handler u c' hu).other (hother hu)⟩

theorem interrupt_inv (h : Inv s) (hcpu : s.cpu = none) (ht : s.inHandler t = none)
    (irqs : UInt32) : Inv (s.interrupt t irqs) := by
  unfold State.interrupt
  dsimp only
  split
  · refine ⟨congrArg (· + 1) h.duds, fun u c' heq => ?_, fun u c' hu => ?_⟩
    · cases hcpu.symm.trans heq
    · have hut : t ≠ u := by
        rintro rfl
        cases ht.symm.trans hu
      exact (((h.handler u c' hu).other hut).other hut).other hut
  · refine ⟨h.duds, ?_, fun u c' hu => h.handlers ht hu⟩
    rintro u c' heq
    cases heq
    exact ⟨ht, .start irqs⟩

theorem step_inv (h : Inv s) (hstep : step s a = some s') : Inv s' := by
  cases step_took hstep with
  | round hcpu _ => exact round_inv h hcpu
  | finish hcpu _ => exact finish_inv h hcpu
  | interrupt irqs hcpu ht => exact interrupt_inv h hcpu ht irqs
  | handled irqs _ ht => exact handled_inv h ht irqs
  | drivers sc _ => exact ⟨h.duds, h.cpu, h.handler⟩

/-! ## Which steps are accounted for -/

/-- The test of a bit. -/
theorem and_mask {x m : UInt32} {slot : Nat} (hm : m.toNat = 2 ^ slot % 2 ^ 32)
    (hslot : slot < LB_NSLOTS) : x &&& m = 0 ↔ x.toNat.testBit slot = false := by
  have hpow : 2 ^ slot < 2 ^ 32 := Nat.pow_lt_pow_right (by decide) hslot
  rw [Nat.mod_eq_of_lt hpow] at hm
  have hzero : (0 : UInt32).toNat = 0 := rfl
  rw [← UInt32.toNat_inj, UInt32.toNat_and, hm, Nat.and_two_pow, hzero]
  cases x.toNat.testBit slot <;> simp

/-- A dud was seen if the call has counted one. -/
theorem CallOf.duds_eq_zero (h : CallOf t c k tr) :
    c.dudsThisTime = 0 ↔ ∀ e ∈ lastCall t tr, e.isDud = false := by
  rw [h.duds, List.countP_eq_zero]
  exact forall₂_congr fun e _ => by rw [Bool.not_eq_true]

theorem round_orderly (h : Inv s) (ho : Orderly s.trace) (hcpu : s.cpu = some (t, c))
    (hslot : c.slot < LB_NSLOTS) : Orderly (s.round t c).trace := by
  obtain ⟨-, hc⟩ := h.cpu t c hcpu
  have hread : Asserted (lastRead (lastCall t s.trace)) c.slot ↔ ¬ c.irqs &&& c.mask = 0 := by
    rw [and_mask hc.mask hslot, ← hc.read, Asserted, Bool.not_eq_false]
  unfold State.round
  split
  · next hclear => exact ⟨⟨hslot, fun ha => hread.mp ha hclear⟩, ho⟩
  · next hset =>
    have hserved : Served s.sc c.slot ↔
        ¬ (s.sc.lsSlotsinuse &&& c.mask = 0 ∨ s.sc.lsIrqfuncs c.slot = false) := by
      rw [and_mask hc.mask hslot, Served, not_or, Bool.not_eq_false, Bool.not_eq_false]
    split
    · next hno => exact ⟨⟨hslot, hread.mpr hset, fun hs => hserved.mp hs hno⟩, ho⟩
    · next hyes =>
      refine ⟨⟨hslot, hread.mpr hset, hserved.mpr hyes, fun sc' hm => ?_⟩, ho⟩
      exact Nat.lt_irrefl _ (hc.called c.slot sc' hm)

theorem finish_orderly (h : Inv s) (ho : Orderly s.trace) (hcpu : s.cpu = some (t, c)) :
    Orderly (s.finish t c).trace := by
  obtain ⟨-, hc⟩ := h.cpu t c hcpu
  rw [finish_eq]
  split
  · next hreset => exact ⟨⟨rfl, Nat.zero_le _⟩, hc.duds_eq_zero.mp hreset.1, ho⟩
  · split
    · exact ho
    · next hmany => exact ⟨⟨h.duds, Nat.le_of_not_lt hmany⟩, ho⟩

/-- A stray interrupt returns with one more, and no test. -/
theorem interrupt_orderly_iff (h : Inv s) (ho : Orderly s.trace) (irqs : UInt32) :
    Orderly (s.interrupt t irqs).trace ↔ (irqs = 0 → s.duds < 10000) := by
  unfold State.interrupt
  dsimp only
  split
  · next h0 =>
    have hlast : lastRead (lastCall t ((t, .enter irqs) :: s.trace)) = 0 := by
      rw [lastCall_enter]
      exact h0
    refine ⟨fun hx _ => ?_, fun hd => ⟨⟨congrArg (· + 1) h.duds, hd h0⟩, hlast, trivial, ho⟩⟩
    obtain ⟨⟨-, hle⟩, -⟩ := hx
    exact hle
  · next h0 => exact iff_of_true ⟨trivial, ho⟩ fun hx => absurd hx h0

theorem accounted_step (h : Inv s) (hs : Accounted s) (hstep : step s a = some s') :
    Accounted s' ↔ Diagnosed s a := by
  have hduds := (step_inv h hstep).duds
  rw [Accounted, and_iff_left hduds]
  cases step_took hstep with
  | round hcpu hslot => exact iff_of_true (round_orderly h hs.1 hcpu hslot) nofun
  | finish hcpu _ => exact iff_of_true (finish_orderly h hs.1 hcpu) nofun
  | @interrupt t irqs _ _ =>
    rw [interrupt_orderly_iff h hs.1]
    refine ⟨fun hi u heq => ?_, fun hd hirqs => hd t (by rw [hirqs])⟩
    cases heq
    exact hi rfl
  | handled irqs _ ht => exact iff_of_true ⟨trivial, hs.1⟩ nofun
  | drivers sc _ => exact iff_of_true hs.1 nofun

/-- In every run, a call asks each handler at most once and only with its slot asserted and served,
`duds` counts the dud conditions since a call that saw none, and no call returns with more than
10000 of them, if and only if no stray interrupt comes once there are 10000: that exit is not
tested. -/
theorem lamebus_accounted_iff (sc : Softc) (acts : List (Act T)) :
    Throughout step Accounted (boot sc : State T) acts ↔
      EachStep step Diagnosed (boot sc : State T) acts :=
  throughout_iff (fun _ _ _ => step_inv) (fun _ _ _ h hs hstep => accounted_step h hs hstep)
    (boot_inv sc) ⟨trivial, rfl⟩ acts

/-! ## A storm of stray interrupts -/

/-- `n` stray interrupts in a row. -/
def storm (n : Nat) : List (Act Unit) := List.replicate n (.interrupt () 0)

theorem run_stray {s : State Unit} (hp : s.panicked = false) (hcpu : s.cpu = none)
    (ht : s.inHandler () = none) (n : Nat) :
    run step s (storm (n + 1)) = run step (s.interrupt () 0) (storm n) := by
  have hstep : step s (.interrupt () 0) = some (s.interrupt () 0) := by
    unfold step
    rw [hp, if_neg Bool.false_ne_true, hcpu]
    dsimp only
    rw [ht]
  exact congrArg (Option.bind · _) hstep

/-- Each of them returns with one more. -/
theorem run_storm (n : Nat) {s : State Unit} (hp : s.panicked = false) (hcpu : s.cpu = none)
    (ht : s.inHandler () = none) :
    ∃ s' tr, run step s (storm (n + 1)) = some s' ∧ s'.panicked = false ∧
      s'.duds = s.duds + (n + 1) ∧ s'.trace = ((), .ret s'.duds) :: tr := by
  induction n generalizing s with
  | zero => exact ⟨s.interrupt () 0, _, run_stray hp hcpu ht 0, hp, rfl, rfl⟩
  | succ n ih =>
    obtain ⟨s', tr, hrest, hp', hduds, htr⟩ := ih (s := s.interrupt () 0) hp hcpu ht
    refine ⟨s', tr, (run_stray hp hcpu ht (n + 1)).trans hrest, hp', ?_, htr⟩
    have hone : (s.interrupt () 0).duds = s.duds + 1 := rfl
    rw [hduds, hone]
    omega

/-- No slot is in use. -/
def noDrivers : Softc := ⟨0, fun _ => false⟩

/-- The 10001st stray interrupt returns, and the count is past the limit without a panic. -/
theorem storm_not_accounted :
    (∃ s, run step (boot noDrivers) (storm 10001) = some s ∧ s.duds = 10001 ∧
      s.panicked = false) ∧ ¬ Throughout step Accounted (boot noDrivers) (storm 10001) := by
  obtain ⟨s, tr, hrun, hp, hduds, htr⟩ := run_storm 10000 (s := boot noDrivers) rfl rfl rfl
  have hmany : s.duds = 10001 := hduds
  refine ⟨⟨s, hrun, hmany, hp⟩, fun h => ?_⟩
  have horderly := (h.last hrun).1
  rw [htr] at horderly
  obtain ⟨⟨-, hle⟩, -⟩ := horderly
  omega

end Os161.Lamebus

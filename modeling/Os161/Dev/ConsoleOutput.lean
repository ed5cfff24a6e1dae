import Os161.Dev.ConsoleLine
import Os161.Lib.Runs

/-! # Console output

The panic of `lser_write` is out of reach, the device never loses a character, and every character
passed to `putch` gets to it once. -/
namespace Os161.Console
open Os161.Lib Os161.Runs

variable {T B : Type} {s s' : State T B} {m : Masked B} {c : Put B}

/-! ## The way to the next store -/

/-- What goes on by itself, with no new call and nothing typed. -/
def Act.Goes : Act T B → Prop
  | .thread _ | .masked | .interrupt | .complete => True
  | .putch .. | .putchMasked _ | .getch _ | .typed _ => False

/-- How far what runs with interrupts off is from its next store to the character register, or from
its end. -/
def Masked.phase (busy active : Bool) : Masked B → Nat
  | .irqWirq => if active then 9 else 17
  | .irqClear => 8
  | .irqRirq ctw => if ctw then 7 else 16
  | .irqChar ctw => if ctw then 6 else 15
  | .irqAck ctw _ => if ctw then 5 else 14
  | .irqStart ctw _ => if ctw then 4 else 13
  | .irqInput _ => if busy then 12 else 3
  | .polled _ => 17
  | .polledBusy _ => if active then 15 else 16
  | .polledClear _ => 14
  | .polledSend .. => 13
  | .polledWait _ => if active then 11 else 12
  | .polledReady => 3

/-- How far the next store is away: the device is done, the handler calls `con_start`, a thread gets
past the `P`. -/
def State.phase (s : State T B) : Nat :=
  match s.masked with
  | some m => m.phase s.wbusy s.wirqActive
  | none => if s.wbusy then if s.wirqActive then 10 else 11 else if s.holder.isSome then 1 else 2

def State.distance (s : State T B) : Nat := 32 * (s.passed.length - s.written.length) + s.phase

theorem State.phase_lt (s : State T B) : s.phase < 32 := by
  unfold State.phase
  split
  · next m _ => cases m <;> simp only [Masked.phase] <;> (try split) <;> omega
  · split
    · split <;> omega
    · split <;> omega

theorem phase_none (hm : s.masked = none) : s.phase ≤ if s.wbusy then 11 else 2 := by
  unfold State.phase
  rw [hm]
  dsimp only
  split
  · split <;> omega
  · split <;> omega

theorem phase_masked (hm : s.masked = some m) :
    s.phase = m.phase s.wbusy s.wirqActive := by
  unfold State.phase
  rw [hm]

variable [DecidableEq T]

theorem step_masked (hc : s.panicked = false) (hm : s.masked = some m) :
    step s .masked = s.maskedStep m := by
  unfold step
  rw [hc, if_neg Bool.false_ne_true, hm]

theorem step_complete (hc : s.panicked = false) (hi : s.inflight = some c) :
    step s .complete = some { s with inflight := none, wirqActive := true } := by
  unfold step
  rw [hc, if_neg Bool.false_ne_true, hi]
  rfl

theorem step_thread (hc : s.panicked = false) (hm : s.masked = none) (t : T) :
    step s (.thread t) = s.threadStep t := by
  unfold step
  rw [hc, if_neg Bool.false_ne_true, hm]

/-- A step that goes on by itself and comes nearer to the next store, or is one. -/
def Nearer (s : State T B) : Prop :=
  ∃ a s', a.Goes ∧ step s a = some s' ∧ s'.passed = s.passed ∧ s'.distance < s.distance

theorem Nearer.of_phase {a : Act T B} (ha : a.Goes) (hs : step s a = some s')
    (hp : s'.passed = s.passed) (hw : s'.written = s.written) (hphase : s'.phase < s.phase) :
    Nearer s := by
  refine ⟨a, s', ha, hs, hp, ?_⟩
  unfold State.distance
  rw [hp, hw]
  omega

theorem Nearer.of_store {a : Act T B} (ha : a.Goes) (hs : step s a = some s')
    (hout : s.written.length < s.passed.length) (hp : s'.passed = s.passed)
    (hw : s'.written = s.written ++ [c]) : Nearer s := by
  refine ⟨a, s', ha, hs, hp, ?_⟩
  have hlt := s'.phase_lt
  unfold State.distance
  rw [hp, hw, List.length_append, List.length_singleton]
  omega

theorem Nearer.masked (hc : s.panicked = false) (hm : s.masked = some m)
    (hs : s.maskedStep m = some s') (hp : s'.passed = s.passed) (hw : s'.written = s.written)
    (hphase : s'.phase < m.phase s.wbusy s.wirqActive) : Nearer s :=
  .of_phase (a := .masked) trivial ((step_masked hc hm).trans hs) hp hw
    ((phase_masked hm).symm ▸ hphase)

/-- The loops wait for a device that is at a character. -/
theorem Nearer.complete (h : Inv s) (hm : s.masked = some m)
    (hia : s.inflight.isSome.toNat + s.wirqActive.toNat = 1) (ha : s.wirqActive = false)
    (hphase : m.phase s.wbusy true < m.phase s.wbusy false) : Nearer s := by
  cases hi : s.inflight with
  | none =>
    rw [hi, ha] at hia
    cases hia
  | some c =>
    refine .of_phase (a := .complete) trivial (step_complete h.clear hi) rfl rfl ?_
    rw [phase_masked hm, ha]
    exact (phase_masked (s := { s with inflight := none, wirqActive := true }) hm).symm ▸ hphase

theorem masked_nearer (h : Inv s) (hm : s.masked = some m)
    (hout : s.written.length < s.passed.length) : Nearer s := by
  obtain ⟨one, device⟩ := h.line
  rw [hm] at one device
  cases m with
  | irqWirq =>
    cases ha : s.wirqActive with
    | true =>
      refine .masked h.clear hm (congrArg some (if_pos ha)) rfl rfl ?_
      simp [State.phase, Masked.phase, ha]
    | false =>
      refine .masked h.clear hm (congrArg some (if_neg (by simp [ha]))) rfl rfl ?_
      simp [State.phase, Masked.phase, ha]
  | irqClear =>
    refine .masked h.clear hm rfl rfl rfl ?_
    simp [State.phase, Masked.phase]
  | irqRirq ctw =>
    refine .masked h.clear hm rfl rfl rfl ?_
    cases ctw <;> cases s.rirqActive <;> simp [State.phase, Masked.phase]
  | irqChar ctw =>
    refine .masked h.clear hm rfl rfl rfl ?_
    cases ctw <;> simp [State.phase, Masked.phase]
  | irqAck ctw ch =>
    refine .masked h.clear hm rfl rfl rfl ?_
    cases ctw <;> simp [State.phase, Masked.phase]
  | irqStart ctw got =>
    cases ctw with
    | false =>
      refine .masked h.clear hm rfl rfl rfl ?_
      cases hb : s.wbusy <;> simp [State.phase, Masked.phase, hb]
    | true =>
      have hb : s.wbusy = false := by
        simp only [carry, Bool.toNat_true] at one
        exact Bool.toNat_eq_zero.mp (by omega)
      refine .masked h.clear hm rfl rfl rfl ?_
      simp [State.phase, Masked.phase, State.conStart, hb]
  | irqInput got =>
    have hphase (q : State T B) (hb : q.wbusy = s.wbusy) :
        { q with masked := none }.phase < Masked.phase s.wbusy s.wirqActive (.irqInput got) := by
      refine Nat.lt_of_le_of_lt (phase_none rfl) ?_
      show (if q.wbusy then 11 else 2) < if s.wbusy then 12 else 3
      rw [hb]
      split <;> omega
    cases got with
    | none => exact .masked h.clear hm rfl rfl rfl (hphase s rfl)
    | some ch => exact .masked h.clear hm rfl rfl rfl (hphase (s.conInput ch) rfl)
  | polled c =>
    refine .masked h.clear hm rfl rfl rfl ?_
    cases s.wbusy <;> cases s.wirqActive <;> simp [State.phase, Masked.phase]
  | polledBusy c =>
    obtain ⟨hia, -⟩ := device
    cases ha : s.wirqActive with
    | true =>
      refine .masked h.clear hm (if_pos ha) rfl rfl ?_
      simp [State.phase, Masked.phase, ha]
    | false => exact .complete h hm hia ha (by simp [Masked.phase])
  | polledClear c =>
    refine .masked h.clear hm rfl rfl rfl ?_
    simp [State.phase, Masked.phase]
  | polledSend c irqpending =>
    have hidle : s.inflight = none := none_of_toNat device.1
    refine .of_store (a := .masked) (c := c) trivial ((step_masked h.clear hm).trans rfl) hout ?_ ?_
    · rw [storeChar_idle s c hidle]
    · rw [storeChar_idle s c hidle]
  | polledWait irqpending =>
    obtain ⟨hia, hb⟩ := device
    cases ha : s.wirqActive with
    | true =>
      refine .masked h.clear hm (if_pos ha) rfl rfl ?_
      cases irqpending with
      | false => simp [State.phase, Masked.phase, ha]
      | true => simp [State.phase, Masked.phase, ha, Bool.toNat_eq_one.mp hb]
    | false => exact .complete h hm hia ha (by simp [Masked.phase])
  | polledReady =>
    have hb : s.wbusy = false := Bool.toNat_eq_zero.mp device.2.2
    refine .masked h.clear hm rfl rfl rfl ?_
    have hlt : (if s.wbusy then 11 else 2) < 3 := by
      rw [hb]
      decide
    exact Nat.lt_of_le_of_lt (phase_none rfl) hlt

/-- The device is done with its character, or interrupts. -/
theorem busy_nearer (h : Inv s) (hm : s.masked = none) (hb : s.wbusy = true) : Nearer s := by
  have device := h.line.device
  rw [hm, hb] at device
  cases ha : s.wirqActive with
  | true =>
    have hirq : step s .interrupt = some { s with masked := some .irqWirq } := by
      unfold step
      rw [h.clear, if_neg Bool.false_ne_true, hm]
      exact if_pos (.inl ha)
    refine .of_phase (a := .interrupt) trivial hirq rfl rfl ?_
    simp [State.phase, Masked.phase, hm, hb, ha]
  | false =>
    cases hi : s.inflight with
    | none =>
      rw [hi, ha] at device
      cases device
    | some c =>
      refine .of_phase (a := .complete) trivial (step_complete h.clear hi) rfl rfl ?_
      simp [State.phase, hm, hb, ha]

/-- The thread that is past the `P` stores its character. -/
theorem holder_nearer (h : Inv s) (hm : s.masked = none) {t : T} (hh : s.holder = some t)
    (hout : s.written.length < s.passed.length) : Nearer s := by
  have hs : (s.pc t).sending = true := (h.holder t).mp hh
  cases hp : s.pc t with
  | putSend c =>
    obtain ⟨hbusy, hidle, -⟩ := h.send hm hp
    have hstep : s.threadStep t =
        some ({ s with holder := none }.lserWrite c |>.goto t .out) := by
      unfold State.threadStep
      rw [hp]
    rw [lserWrite_free { s with holder := none } c hbusy hidle] at hstep
    exact .of_store (a := .thread t) trivial ((step_thread h.clear hm t).trans hstep) hout rfl rfl
  | _ =>
    rw [hp] at hs
    cases hs

/-- Nobody has the right to write, so it is a unit of `cs_wsem`, and no thread that brings a
character sleeps. -/
theorem free_nearer (h : Inv s) (hm : s.masked = none) (hb : s.wbusy = false)
    (hh : s.holder = none) (hout : s.written.length < s.passed.length) : Nearer s := by
  have one := h.line.one
  rw [hm, hb, hh] at one
  have hw : s.wsem ≠ 0 := by
    intro hzero
    rw [hzero] at one
    cases one
  obtain ⟨k, c, hk⟩ := h.once.exists_carried hout
  cases k with
  | none =>
    have hcarried : s.masked.bind Masked.put? = some c := hk
    rw [hm] at hcarried
    cases hcarried
  | some t =>
    have hput : (s.pc t).put? = some c := hk
    cases hp : s.pc t with
    | putP d =>
      have hstep : s.threadStep t =
          some ({ s with wsem := s.wsem - 1, holder := some t }.goto t (.putSend d)) := by
        unfold State.threadStep
        rw [hp]
        exact congrArg some (if_neg hw)
      refine .of_phase (a := .thread t) trivial ((step_thread h.clear hm t).trans hstep) rfl rfl ?_
      simp [State.phase, State.goto, hm, hb, hh]
    | putSleep d => exact absurd (h.asleep t (by rw [hp]; rfl)) hw
    | putSend d =>
      have hholder := (h.holder t).mpr (by rw [hp]; rfl)
      cases hh.symm.trans hholder
    | _ =>
      rw [hp] at hput
      cases hput

theorem Inv.nearer (h : Inv s) (hout : s.written.length < s.passed.length) : Nearer s := by
  cases hm : s.masked with
  | some m => exact masked_nearer h hm hout
  | none =>
    cases hb : s.wbusy with
    | true => exact busy_nearer h hm hb
    | false =>
      cases hh : s.holder with
      | some t => exact holder_nearer h hm hh hout
      | none => exact free_nearer h hm hb hh hout

/-- What is on its way gets to the device by steps that need no new call and nothing typed. -/
def Drains (s : State T B) : Prop :=
  ∃ acts s', (∀ a ∈ acts, a.Goes) ∧ run step s acts = some s' ∧ s'.written.Perm s.passed

theorem Inv.drains (h : Inv s) : Drains s := by
  have hgo : ∀ q : State T B, Inv q ∧ q.passed = s.passed →
      ¬ q.passed.length ≤ q.written.length → ∃ a q', a.Goes ∧ step q a = some q' ∧
        (Inv q' ∧ q'.passed = s.passed) ∧ q'.distance < q.distance := by
    intro q ⟨hq, hp⟩ hnot
    obtain ⟨a, q', ha, hs, hp', hlt⟩ := hq.nearer (Nat.lt_of_not_le hnot)
    exact ⟨a, q', ha, hs, ⟨step_inv hq hs, hp'.trans hp⟩, hlt⟩
  obtain ⟨acts, s', hacts, hrun, ⟨hinv, hp⟩, hlen⟩ :=
    leads_of_measure State.distance hgo (s := s) ⟨h, rfl⟩
  exact ⟨acts, s', hacts, hrun, hp ▸ hinv.once.perm hlen⟩

/-! ## Every character gets out once -/

/-- `lser_write` has not panicked, the device has lost no character, and each character that was
passed to `putch` has been written once, or is still with its caller and will be. -/
structure Sound (s : State T B) : Prop where
  clear : s.panicked = false
  room : s.overrun = false
  once : s.handover.Once
  drains : Drains s

theorem Inv.sound (h : Inv s) : Sound s := ⟨h.clear, h.room, h.once, h.drains⟩

/-- However threads, calls with interrupts off, interrupts and the device are interleaved. -/
theorem output_sound (ch : B) (acts : List (Act T B)) :
    Throughout step Sound (boot ch : State T B) acts :=
  throughout_of_inv (fun _ => Inv.sound) (fun _ _ _ => step_inv) (Inv.boot ch) acts

end Os161.Console

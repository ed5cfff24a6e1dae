import Mathlib.Tactic.Common
import Os161.Dev.Console
import Os161.Lib.Handover

/-! # The right to write to the console

One right to write goes around: it is a unit of `cs_wsem`, or with a thread after the `P`, or
`ls_wbusy`, or with the interrupt handler on its way to `con_start`. The polled path works without
it, and leaves the device to whoever has it as it was found. -/
namespace Os161.Console
open Os161.Lib

variable {T B : Type} {s s' : State T B}

/-- The character a thread brings to the device. -/
def Pc.put? : Pc B → Option (Put B)
  | .putP c | .putSleep c | .putSend c => some c
  | _ => none

def Pc.sending : Pc B → Bool
  | .putSend _ => true
  | _ => false

def Pc.waiting : Pc B → Bool
  | .putSleep _ => true
  | _ => false

def Masked.put? : Masked B → Option (Put B)
  | .polled c | .polledBusy c | .polledClear c => some c
  | .polledSend c _ => some c
  | _ => none

/-- Characters are carried by threads and by what runs with interrupts off. -/
def State.carried (s : State T B) : Option T → Option (Put B)
  | none => s.masked.bind Masked.put?
  | some t => (s.pc t).put?

def State.handover (s : State T B) : Handover (Option T) (Put B) where
  passed := s.passed
  done := s.written
  carried := s.carried

/-! ## The right to write -/

/-- `con_start` is still to be called. -/
def carry : Option (Masked B) → Nat
  | some .irqClear => 1
  | some (.irqRirq ctw) | some (.irqChar ctw) | some (.irqAck ctw _) | some (.irqStart ctw _) =>
    ctw.toNat
  | _ => 0

/-- The device is at a character (`i`), or is ready and says so (`a`), as the driver takes it to be
(`b`, that is `ls_wbusy`). -/
def Device (i a b : Nat) : Option (Masked B) → Prop
  | some .irqClear => i = 0 ∧ a = 1 ∧ b = 0
  | some (.polledBusy _) => i + a = 1 ∧ b = 1
  | some (.polledClear _) => i = 0 ∧ a = 1 ∧ b = 1
  | some (.polledSend _ irqpending) => i = 0 ∧ a = 0 ∧ b = irqpending.toNat
  | some (.polledWait irqpending) => i + a = 1 ∧ b = irqpending.toNat
  | some .polledReady => i = 0 ∧ a = 1 ∧ b = 0
  | _ => i + a = b

structure Line (units held i a b : Nat) (m : Option (Masked B)) : Prop where
  one : units + held + b + carry m = 1
  device : Device i a b m

/-- The device is done with its character. -/
theorem Line.complete {units held a b : Nat} {m : Option (Masked B)}
    (h : Line units held 1 a b m) : Line units held 0 1 b m := by
  obtain ⟨one, device⟩ := h
  refine ⟨one, ?_⟩
  cases m with
  | none =>
    simp only [Device] at device ⊢
    omega
  | some m => cases m <;> simp only [Device, true_and] at device ⊢ <;> omega

structure Inv (s : State T B) : Prop where
  clear : s.panicked = false
  room : s.overrun = false
  line : Line s.wsem s.holder.isSome.toNat s.inflight.isSome.toNat s.wirqActive.toNat
    s.wbusy.toNat s.masked
  holder : ∀ t, s.holder = some t ↔ (s.pc t).sending = true
  asleep : ∀ t, (s.pc t).waiting = true → s.wsem = 0
  ids : ∀ c ∈ s.passed, c.id < s.nextId
  once : s.handover.Once

theorem Inv.boot (ch : B) : Inv (boot ch : State T B) where
  clear := rfl
  room := rfl
  line := ⟨rfl, rfl⟩
  holder _ := iff_of_false nofun nofun
  asleep _ := nofun
  ids _ h := absurd h List.not_mem_nil
  once := by
    have hempty : (Console.boot ch : State T B).handover = ⟨[], [], fun _ => none⟩ := by
      unfold State.handover
      congr 1
      funext k
      cases k <;> rfl
    rw [hempty]
    exact Handover.Once.empty ..

/-- The input is no part of it. -/
theorem Inv.input (h : Inv s) (rsem : Nat) (gotchar charReg : B) (rirqActive : Bool)
    (delivered returned : List B) (readers : List T) :
    Inv { s with rsem, gotchar, charReg, rirqActive, delivered, returned, readers } :=
  ⟨h.clear, h.room, h.line, h.holder, h.asleep, h.ids, h.once⟩

theorem carried_wake (s : State T B) {f : Pc B → Pc B} (hf : ∀ p, (f p).put? = p.put?) :
    { s with pc := fun t => f (s.pc t) }.carried = s.carried := by
  funext k
  cases k with
  | none => rfl
  | some t => exact hf (s.pc t)

theorem carried_same (s : State T B) {m : Option (Masked B)}
    (hm : m.bind Masked.put? = s.masked.bind Masked.put?) :
    { s with masked := m }.carried = s.carried := by
  funext k
  cases k with
  | none => exact hm
  | some t => rfl

/-- What runs with interrupts off goes on, with the character it has. -/
theorem Inv.move (h : Inv s) (m : Option (Masked B)) (busy active : Bool)
    (hline : Line s.wsem s.holder.isSome.toNat s.inflight.isSome.toNat active.toNat busy.toNat m)
    (hm : m.bind Masked.put? = s.masked.bind Masked.put?) :
    Inv { s with wbusy := busy, wirqActive := active, masked := m } := by
  refine ⟨h.clear, h.room, hline, h.holder, h.asleep, h.ids, ?_⟩
  show Handover.Once ⟨s.passed, s.written, { s with masked := m }.carried⟩
  rw [carried_same s hm]
  exact h.once

/-- `con_start` gives the right back, and whoever waits for it is woken. -/
theorem Inv.conStart (h : Inv s) {m : Option (Masked B)}
    (hline : Line (s.wsem + 1) s.holder.isSome.toNat s.inflight.isSome.toNat
      s.wirqActive.toNat s.wbusy.toNat m)
    (hm : m.bind Masked.put? = s.masked.bind Masked.put?) :
    Inv { s.conStart with masked := m } := by
  refine ⟨h.clear, h.room, hline, fun t => (h.holder t).trans ?_, fun t ht => ?_, h.ids, ?_⟩
  · show (s.pc t).sending = true ↔ (s.pc t).wakePut.sending = true
    cases s.pc t <;> exact Iff.rfl
  · change (s.pc t).wakePut.waiting = true at ht
    cases hp : s.pc t with
    | _ =>
      rw [hp] at ht
      cases ht
  · have hwake := carried_wake s (f := Pc.wakePut) fun p => by cases p <;> rfl
    show Handover.Once ⟨s.passed, s.written, { s.conStart with masked := m }.carried⟩
    rw [carried_same s.conStart hm]
    show Handover.Once ⟨s.passed, s.written, { s with pc := fun t => (s.pc t).wakePut }.carried⟩
    rw [hwake]
    exact h.once

theorem Inv.conInput (h : Inv s) (ch : B) : Inv (s.conInput ch) := by
  refine ⟨h.clear, h.room, h.line, fun t => (h.holder t).trans ?_, fun t ht => h.asleep t ?_,
    h.ids, ?_⟩
  · show (s.pc t).sending = true ↔ (s.pc t).wakeGet.sending = true
    cases s.pc t <;> exact Iff.rfl
  · change (s.pc t).wakeGet.waiting = true at ht
    cases hp : s.pc t with
    | putSleep c => rfl
    | _ =>
      rw [hp] at ht
      cases ht
  · have hwake := carried_wake s (f := Pc.wakeGet) fun p => by cases p <;> rfl
    show Handover.Once ⟨s.passed, s.written, { s with pc := fun t => (s.pc t).wakeGet }.carried⟩
    rw [hwake]
    exact h.once

theorem Inv.complete (h : Inv s) {c : Put B} (hc : s.inflight = some c) :
    Inv { s with inflight := none, wirqActive := true } := by
  have hline := h.line
  rw [hc] at hline
  exact ⟨h.clear, h.room, hline.complete, h.holder, h.asleep, h.ids, h.once⟩

theorem storeChar_idle (s : State T B) (c : Put B) (hidle : s.inflight = none) :
    s.storeChar c = { s with inflight := some c, written := s.written ++ [c] } := by
  unfold State.storeChar
  rw [hidle]

theorem lserWrite_free (s : State T B) (c : Put B) (hbusy : s.wbusy = false)
    (hidle : s.inflight = none) :
    s.lserWrite c =
      { s with wbusy := true, inflight := some c, written := s.written ++ [c] } := by
  unfold State.lserWrite
  rw [hbusy, if_neg Bool.false_ne_true]
  exact storeChar_idle { s with wbusy := true } c hidle

theorem Inv.fresh (h : Inv s) (ch : B) : (⟨s.nextId, ch⟩ : Put B) ∉ s.handover.passed :=
  fun hmem => absurd (h.ids _ hmem) (Nat.lt_irrefl s.nextId)

theorem Inv.ids_call (h : Inv s) (ch : B) :
    ∀ c ∈ (s.call ch).passed, c.id < (s.call ch).nextId := by
  intro c hc
  rcases List.mem_append.mp hc with hc | hc
  · exact Nat.lt_succ_of_lt (h.ids c hc)
  · rw [List.mem_singleton.mp hc]
    exact Nat.lt_succ_self s.nextId

variable [DecidableEq T]

theorem carried_masked (s : State T B) (m : Option (Masked B)) :
    { s with masked := m }.carried = Function.update s.carried none (m.bind Masked.put?) := by
  funext k
  cases k with
  | none => rfl
  | some t => exact (Function.update_of_ne (Option.some_ne_none t) ..).symm

theorem carried_goto (s : State T B) (t : T) (p : Pc B) :
    (s.goto t p).carried = Function.update s.carried (some t) p.put? := by
  funext k
  cases k with
  | none => exact (Function.update_of_ne (Option.some_ne_none t).symm ..).symm
  | some x =>
    show (Function.update s.pc t p x).put? = Function.update s.carried (some t) p.put? (some x)
    by_cases hx : x = t
    · rw [hx, Function.update_self, Function.update_self]
    · rw [Function.update_of_ne hx, Function.update_of_ne fun heq => hx (Option.some.inj heq)]
      rfl

theorem Inv.polledSend (h : Inv s) {c : Put B} {irqpending : Bool}
    (hm : s.masked = some (.polledSend c irqpending)) :
    Inv { s.storeChar c with masked := some (.polledWait irqpending) } := by
  obtain ⟨one, device⟩ := h.line
  rw [hm] at one device
  obtain ⟨hi, ha, hb⟩ := device
  have hidle : s.inflight = none := by
    cases hx : s.inflight with
    | none => rfl
    | some d =>
      rw [hx] at hi
      cases hi
  rw [storeChar_idle s c hidle]
  have hcarried : s.handover.carried none = some c := congrArg (Option.bind · Masked.put?) hm
  refine ⟨h.clear, h.room, ⟨one, ?_, hb⟩, h.holder, h.asleep, h.ids, ?_⟩
  · rw [ha]
    rfl
  · have hgive := h.once.give hcarried
    show Handover.Once ⟨s.passed, s.written ++ [c],
      { s with masked := some (.polledWait irqpending) }.carried⟩
    rw [carried_masked]
    exact hgive

/-! ## Threads -/

theorem goto_pc (s : State T B) (t x : T) (p : Pc B) :
    (s.goto t p).pc x = if x = t then p else s.pc x :=
  Function.update_apply ..

theorem Inv.goto (h : Inv s) {t : T} {p : Pc B} (hput : p.put? = (s.pc t).put?)
    (hsend : p.sending = (s.pc t).sending) (hwait : p.waiting = true → s.wsem = 0) :
    Inv (s.goto t p) := by
  refine ⟨h.clear, h.room, h.line, fun x => ?_, fun x hx => ?_, h.ids, ?_⟩
  · rw [goto_pc]
    split
    · next heq => rw [hsend, heq]; exact h.holder t
    · exact h.holder x
  · rw [goto_pc] at hx
    split at hx
    · exact hwait hx
    · exact h.asleep x hx
  · show Handover.Once ⟨s.passed, s.written, (s.goto t p).carried⟩
    rw [carried_goto, hput]
    show Handover.Once ⟨s.passed, s.written,
      Function.update s.carried (some t) (s.carried (some t))⟩
    rw [Function.update_eq_self]
    exact h.once

theorem none_of_toNat {C : Type} {o : Option C} (h : o.isSome.toNat = 0) : o = none := by
  cases o with
  | none => rfl
  | some c => cases h

/-- `P(cs->cs_wsem)` finds a unit. -/
theorem Inv.acquire (h : Inv s) (hm : s.masked = none) {t : T} {c : Put B}
    (hp : s.pc t = .putP c) (hw : s.wsem ≠ 0) :
    Inv ({ s with wsem := s.wsem - 1, holder := some t }.goto t (.putSend c)) := by
  obtain ⟨one, device⟩ := h.line
  rw [hm] at one
  simp only [carry] at one
  have hfree : s.holder = none := none_of_toNat (by omega)
  refine ⟨h.clear, h.room, ⟨?_, device⟩, fun x => ?_, fun x hx => ?_, h.ids, ?_⟩
  · show s.wsem - 1 + 1 + s.wbusy.toNat + carry s.masked = 1
    rw [hm]
    simp only [carry]
    omega
  · rw [goto_pc]
    show some t = some x ↔ _
    split
    · next heq => exact iff_of_true (congrArg some heq.symm) rfl
    · next hne =>
      refine iff_of_false (fun heq => hne (Option.some.inj heq).symm) fun hx => ?_
      cases hfree.symm.trans ((h.holder x).mpr hx)
  · rw [goto_pc] at hx
    split at hx
    · cases hx
    · exact absurd (h.asleep x hx) hw
  · show Handover.Once ⟨s.passed, s.written, (s.goto t (.putSend c)).carried⟩
    have hput : (Pc.putSend c).put? = s.carried (some t) := (congrArg Pc.put? hp).symm
    rw [carried_goto, hput, Function.update_eq_self]
    exact h.once

/-- `lser_write` does not panic: whoever comes here has the right to write. -/
theorem Inv.send (h : Inv s) (hm : s.masked = none) {t : T} {c : Put B}
    (hp : s.pc t = .putSend c) :
    s.wbusy = false ∧ s.inflight = none ∧
      Inv ({ s with holder := none }.lserWrite c |>.goto t .out) := by
  have hholder : s.holder = some t := (h.holder t).mpr (by rw [hp]; rfl)
  obtain ⟨one, device⟩ := h.line
  rw [hm, hholder] at one
  rw [hm] at device
  simp only [carry, Option.isSome_some, Bool.toNat_true] at one
  simp only [Device] at device
  have hidle : s.inflight = none := none_of_toNat (by omega)
  have hbusy : s.wbusy = false := by
    cases hb : s.wbusy with
    | false => rfl
    | true =>
      rw [hb, Bool.toNat_true] at one
      omega
  refine ⟨hbusy, hidle, ?_⟩
  rw [lserWrite_free { s with holder := none } c hbusy hidle]
  refine ⟨h.clear, h.room, ⟨?_, ?_⟩, fun x => ?_, fun x hx => ?_, h.ids, ?_⟩
  · show s.wsem + 0 + 1 + carry s.masked = 1
    rw [hm]
    simp only [carry]
    omega
  · show Device 1 s.wirqActive.toNat 1 s.masked
    rw [hm]
    simp only [Device]
    omega
  · rw [goto_pc]
    show none = some x ↔ _
    refine iff_of_false nofun fun hx => ?_
    split at hx
    · cases hx
    · next hne => exact hne (Option.some.inj (((h.holder x).mpr hx).symm.trans hholder))
  · rw [goto_pc] at hx
    split at hx
    · cases hx
    · exact h.asleep x hx
  · have hcarried : s.handover.carried (some t) = some c := congrArg Pc.put? hp
    have hgive := h.once.give hcarried
    show Handover.Once ⟨s.passed, s.written ++ [c], (s.goto t .out).carried⟩
    rw [carried_goto]
    exact hgive

theorem threadStep_inv (h : Inv s) (hm : s.masked = none) {t : T} (ht : ThreadTook s t s') :
    Inv s' := by
  cases ht with
  | putSleep hp hw => exact h.goto (by rw [hp]; rfl) (by rw [hp]; rfl) fun _ => hw
  | acquire hp hw => exact h.acquire hm hp hw
  | send hp => exact (h.send hm hp).2.2
  | getSleep hp _ => exact h.goto (by rw [hp]; rfl) (by rw [hp]; rfl) nofun
  | take hp _ | read hp =>
    exact (h.input ..).goto (by rw [hp]; rfl) (by rw [hp]; rfl) nofun

/-! ## Calls, and what runs with interrupts off -/

theorem Inv.putch (h : Inv s) {t : T} (ch : B) (hp : s.pc t = .out) :
    Inv ((s.call ch).goto t (.putP ⟨s.nextId, ch⟩)) := by
  have hcarried : s.handover.carried (some t) = none := congrArg Pc.put? hp
  refine ⟨h.clear, h.room, h.line, fun x => ?_, fun x hx => ?_, h.ids_call ch, ?_⟩
  · rw [goto_pc]
    split
    · next heq =>
      have ht := h.holder t
      rw [hp] at ht
      rw [heq]
      exact ht
    · exact h.holder x
  · rw [goto_pc] at hx
    split at hx
    · cases hx
    · exact h.asleep x hx
  · have htake := h.once.take hcarried (h.fresh ch)
    show Handover.Once ⟨s.passed ++ [⟨s.nextId, ch⟩], s.written,
      (s.goto t (.putP ⟨s.nextId, ch⟩)).carried⟩
    rw [carried_goto]
    exact htake

theorem Inv.putchMasked (h : Inv s) (ch : B) (hm : s.masked = none) :
    Inv { s.call ch with masked := some (.polled ⟨s.nextId, ch⟩) } := by
  have hcarried : s.handover.carried none = none := congrArg (Option.bind · Masked.put?) hm
  obtain ⟨one, device⟩ := h.line
  rw [hm] at one device
  refine ⟨h.clear, h.room, ⟨one, device⟩, h.holder, h.asleep, h.ids_call ch, ?_⟩
  have htake := h.once.take hcarried (h.fresh ch)
  show Handover.Once ⟨s.passed ++ [⟨s.nextId, ch⟩], s.written,
    { s with masked := some (.polled ⟨s.nextId, ch⟩) }.carried⟩
  rw [carried_masked]
  exact htake

theorem maskedStep_inv (h : Inv s) {m : Masked B} (hm : s.masked = some m)
    (hstep : s.maskedStep m = some s') : Inv s' := by
  obtain ⟨one, device⟩ := h.line
  rw [hm] at one device
  cases m with
  | irqWirq =>
    obtain rfl := Option.some.inj hstep
    simp only [carry, Device] at one device
    split
    · next ha =>
      rw [ha, Bool.toNat_true] at device
      refine h.move (some .irqClear) false s.wirqActive ⟨?_, ?_, ?_, rfl⟩ (by rw [hm]; rfl)
      · simp only [carry, Bool.toNat_false]
        omega
      · omega
      · rw [ha, Bool.toNat_true]
    · exact h.move (some (.irqRirq false)) s.wbusy s.wirqActive ⟨one, device⟩ (by rw [hm]; rfl)
  | irqClear =>
    obtain rfl := Option.some.inj hstep
    obtain ⟨hi, -, hb⟩ := device
    refine h.move (some (.irqRirq true)) s.wbusy false ⟨one, ?_⟩ (by rw [hm]; rfl)
    simp only [Device, Bool.toNat_false]
    omega
  | irqRirq ctw =>
    obtain rfl := Option.some.inj hstep
    split
    · exact h.move (some (.irqChar ctw)) s.wbusy s.wirqActive ⟨one, device⟩ (by rw [hm]; rfl)
    · exact h.move (some (.irqStart ctw none)) s.wbusy s.wirqActive ⟨one, device⟩ (by rw [hm]; rfl)
  | irqChar ctw =>
    obtain rfl := Option.some.inj hstep
    exact h.move (some (.irqAck ctw s.charReg)) s.wbusy s.wirqActive ⟨one, device⟩ (by rw [hm]; rfl)
  | irqAck ctw ch =>
    obtain rfl := Option.some.inj hstep
    have hmove := h.move (some (.irqStart ctw (some ch))) s.wbusy s.wirqActive ⟨one, device⟩
      (by rw [hm]; rfl)
    exact hmove.input ..
  | irqStart ctw got =>
    obtain rfl := Option.some.inj hstep
    cases ctw with
    | false =>
      exact h.move (some (.irqInput got)) s.wbusy s.wirqActive ⟨one, device⟩ (by rw [hm]; rfl)
    | true =>
      refine h.conStart ⟨?_, device⟩ (by rw [hm]; rfl)
      simp only [carry, Bool.toNat_true] at one ⊢
      omega
  | irqInput got =>
    obtain rfl := Option.some.inj hstep
    have hmove := h.move none s.wbusy s.wirqActive ⟨one, device⟩ (by rw [hm]; rfl)
    cases got with
    | none => exact hmove
    | some ch => exact hmove.conInput ch
  | polled c =>
    obtain rfl := Option.some.inj hstep
    simp only [carry, Device] at one device
    split
    · next hb =>
      refine h.move (some (.polledBusy c)) s.wbusy s.wirqActive ⟨one, ?_, ?_⟩ (by rw [hm]; rfl)
      · rwa [hb, Bool.toNat_true] at device
      · rw [hb, Bool.toNat_true]
    · next hb =>
      rw [Bool.eq_false_iff.mpr hb, Bool.toNat_false] at device
      refine h.move (some (.polledSend c false)) s.wbusy s.wirqActive ⟨one, ?_, ?_, ?_⟩
        (by rw [hm]; rfl)
      · omega
      · omega
      · rw [Bool.eq_false_iff.mpr hb]
  | polledBusy c =>
    obtain ⟨ha, hstep⟩ := Option.ite_none_right_eq_some.mp hstep
    obtain rfl := Option.some.inj hstep
    obtain ⟨hia, hb⟩ := device
    rw [ha, Bool.toNat_true] at hia
    refine h.move (some (.polledClear c)) s.wbusy s.wirqActive ⟨one, ?_, ?_, hb⟩ (by rw [hm]; rfl)
    · omega
    · rw [ha, Bool.toNat_true]
  | polledClear c =>
    obtain rfl := Option.some.inj hstep
    obtain ⟨hi, -, hb⟩ := device
    exact h.move (some (.polledSend c true)) s.wbusy false ⟨one, hi, rfl, hb⟩ (by rw [hm]; rfl)
  | polledSend c irqpending =>
    obtain rfl := Option.some.inj hstep
    exact h.polledSend hm
  | polledWait irqpending =>
    obtain ⟨ha, hstep⟩ := Option.ite_none_right_eq_some.mp hstep
    obtain rfl := Option.some.inj hstep
    obtain ⟨hia, hb⟩ := device
    rw [ha, Bool.toNat_true] at hia
    cases irqpending with
    | false =>
      refine h.move (some .polledReady) s.wbusy s.wirqActive ⟨one, ?_, ?_, hb⟩ (by rw [hm]; rfl)
      · omega
      · rw [ha, Bool.toNat_true]
    | true =>
      refine h.move none s.wbusy s.wirqActive ⟨one, ?_⟩ (by rw [hm]; rfl)
      rw [Bool.toNat_true] at hb
      simp only [Device]
      rw [ha, Bool.toNat_true]
      omega
  | polledReady =>
    obtain rfl := Option.some.inj hstep
    obtain ⟨hi, -, hb⟩ := device
    refine h.move none s.wbusy false ⟨one, ?_⟩ (by rw [hm]; rfl)
    simp only [Device, Bool.toNat_false]
    omega

theorem step_inv {a : Act T B} (h : Inv s) (hstep : step s a = some s') : Inv s' := by
  cases step_took hstep with
  | complete hi => exact h.complete hi
  | typed ch => exact h.input ..
  | masked hm hs => exact maskedStep_inv h hm hs
  | putch ch _ hp => exact h.putch ch hp
  | putchMasked ch hm => exact h.putchMasked ch hm
  | getch _ hp => exact h.goto (by rw [hp]; rfl) (by rw [hp]; rfl) nofun
  | thread hm ht => exact threadStep_inv h hm ht
  | interrupt hm =>
    have hline := h.line
    rw [hm] at hline
    exact h.move (some .irqWirq) s.wbusy s.wirqActive ⟨hline.one, hline.device⟩ (by rw [hm]; rfl)

end Os161.Console

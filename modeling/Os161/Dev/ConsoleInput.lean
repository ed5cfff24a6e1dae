import Mathlib.Data.List.Basic
import Mathlib.Tactic.Common
import Os161.Dev.Console
import Os161.Lib.Runs

/-! # Console input

One cell holds the last character, and a semaphore counts the characters: `getch` may return one
character twice and another not at all. -/
namespace Os161.Console
open Os161.Runs

variable {T B : Type} {s s' : State T B}

/-- What `getch` has returned is a subsequence of what was typed and delivered. -/
def NotDuplicated (s : State T B) : Prop := s.returned.Sublist s.delivered

/-- The delivered characters that no `getch` has returned yet. -/
def State.outstanding (s : State T B) : List B := s.delivered.drop s.returned.length

/-- The character that a step gives to `con_input`. -/
def State.input? (s : State T B) : Act T B → Option B
  | .masked =>
    match s.masked with
    | some (.irqInput got) => got
    | _ => none
  | _ => none

/-- A character is delivered when those before it have been returned, or are the same. -/
def Unhurried (s : State T B) (a : Act T B) : Prop :=
  ∀ ch ∈ s.input? a, ∀ c ∈ s.outstanding, c = ch

instance [DecidableEq B] (s : State T B) (a : Act T B) : Decidable (Unhurried s a) :=
  inferInstanceAs (Decidable (∀ ch ∈ s.input? a, ∀ c ∈ s.outstanding, c = ch))

/-! ## What a step does to the input -/

/-- Nothing. -/
structure InputSame (s s' : State T B) : Prop where
  rsem : s'.rsem = s.rsem
  gotchar : s'.gotchar = s.gotchar
  delivered : s'.delivered = s.delivered
  returned : s'.returned = s.returned
  readers : s'.readers = s.readers
  reading : ∀ t, s'.pc t = .getRead ↔ s.pc t = .getRead

theorem wakePut_getRead (p : Pc B) : p.wakePut = .getRead ↔ p = .getRead := by
  cases p <;> simp [Pc.wakePut]

theorem wakeGet_getRead (p : Pc B) : p.wakeGet = .getRead ↔ p = .getRead := by
  cases p <;> simp [Pc.wakeGet]

theorem InputSame.refl (s : State T B) : InputSame s s :=
  ⟨rfl, rfl, rfl, rfl, rfl, fun _ => Iff.rfl⟩

theorem InputSame.setMasked {u : State T B} (h : InputSame s u) (m : Option (Masked B)) :
    InputSame s { u with masked := m } :=
  ⟨h.rsem, h.gotchar, h.delivered, h.returned, h.readers, h.reading⟩

theorem InputSame.storeChar {u : State T B} (h : InputSame s u) (c : Put B) :
    InputSame s (u.storeChar c) := by
  unfold State.storeChar
  split <;> exact ⟨h.rsem, h.gotchar, h.delivered, h.returned, h.readers, h.reading⟩

theorem InputSame.lserWrite {u : State T B} (h : InputSame s u) (c : Put B) :
    InputSame s (u.lserWrite c) := by
  unfold State.lserWrite
  split
  · exact ⟨h.rsem, h.gotchar, h.delivered, h.returned, h.readers, h.reading⟩
  · have hb : InputSame s { u with wbusy := true } :=
      ⟨h.rsem, h.gotchar, h.delivered, h.returned, h.readers, h.reading⟩
    exact hb.storeChar c

theorem conStart_input (s : State T B) : InputSame s s.conStart :=
  ⟨rfl, rfl, rfl, rfl, rfl, fun t => wakePut_getRead (s.pc t)⟩

/-! ## One cell as a queue -/

/-- The threads between the `P` and the read are listed, and what has been delivered is what has
been returned and then the character in the cell, once for each unit of `cs_rsem` that is there or
has been taken. -/
structure Queued (s : State T B) : Prop where
  reading : ∀ t, t ∈ s.readers ↔ s.pc t = .getRead
  nodup : s.readers.Nodup
  queue : s.delivered = s.returned ++ List.replicate (s.rsem + s.readers.length) s.gotchar

theorem Queued.notDuplicated (h : Queued s) : NotDuplicated s := by
  unfold NotDuplicated
  rw [h.queue]
  exact List.sublist_append_left ..

theorem Queued.outstanding (h : Queued s) :
    s.outstanding = List.replicate (s.rsem + s.readers.length) s.gotchar := by
  unfold State.outstanding
  rw [h.queue, List.drop_left]

theorem Queued.of_same (h : Queued s) (hs : InputSame s s') : Queued s' := by
  refine ⟨fun t => ?_, ?_, ?_⟩
  · rw [hs.readers, hs.reading t]
    exact h.reading t
  · rw [hs.readers]
    exact h.nodup
  · rw [hs.delivered, hs.returned, hs.rsem, hs.readers, hs.gotchar]
    exact h.queue

/-- The characters the cell stands for are all the new one. -/
theorem Queued.deliver (h : Queued s) {ch : B} (hsame : ∀ c ∈ s.outstanding, c = ch)
    (m : Option (Masked B)) : Queued { s.conInput ch with masked := m } := by
  refine ⟨fun t => (h.reading t).trans (wakeGet_getRead (s.pc t)).symm, h.nodup, ?_⟩
  have hrest : List.replicate (s.rsem + s.readers.length) s.gotchar =
      List.replicate (s.rsem + s.readers.length) ch := by
    rw [h.outstanding] at hsame
    exact List.eq_replicate_iff.mpr ⟨List.length_replicate, hsame⟩
  have hone : s.rsem + 1 + s.readers.length = s.rsem + s.readers.length + 1 := by omega
  show s.delivered ++ [ch] = s.returned ++ List.replicate (s.rsem + 1 + s.readers.length) ch
  rw [h.queue, hrest, hone, List.replicate_succ', List.append_assoc]

theorem Queued.boot (ch : B) : Queued (boot ch : State T B) :=
  ⟨fun _ => iff_of_false List.not_mem_nil nofun, List.nodup_nil, rfl⟩

/-! ## Steps -/

variable [DecidableEq T] {a : Act T B} {t : T}

/-- A thread that goes on without being at the read or coming to it. -/
theorem InputSame.goto {u : State T B} {p : Pc B} (h : InputSame s u) (hp : s.pc t ≠ .getRead)
    (hp' : p ≠ .getRead) : InputSame s (u.goto t p) := by
  refine ⟨h.rsem, h.gotchar, h.delivered, h.returned, h.readers, fun x => ?_⟩
  by_cases hx : x = t
  · subst hx
    have hpc : (u.goto x p).pc x = p := Function.update_self ..
    rw [hpc]
    exact iff_of_false hp' hp
  · have hpc : (u.goto t p).pc x = u.pc x := Function.update_of_ne hx ..
    rw [hpc]
    exact h.reading x

/-- A step leaves the input alone, delivers a character, takes a unit of `cs_rsem`, or reads the
cell. -/
inductive InputStep (s : State T B) : Act T B → State T B → Prop
  | same {a : Act T B} {s' : State T B} (h : InputSame s s') : InputStep s a s'
  | deliver (ch : B) (hm : s.masked = some (.irqInput (some ch))) :
      InputStep s .masked { s.conInput ch with masked := none }
  | take (t : T) (hp : s.pc t = .getP) (h : s.rsem ≠ 0) :
      InputStep s (.thread t)
        ({ s with rsem := s.rsem - 1, readers := t :: s.readers }.goto t .getRead)
  | read (t : T) (hp : s.pc t = .getRead) :
      InputStep s (.thread t)
        ({ s with
          returned := s.returned ++ [s.gotchar], readers := s.readers.erase t }.goto t .out)

theorem maskedStep_input {m : Masked B} (hm : s.masked = some m)
    (h : s.maskedStep m = some s') : InputStep s .masked s' := by
  have hself := InputSame.refl s
  cases m with
  | irqWirq =>
    obtain rfl := Option.some.inj h
    refine .same ?_
    split <;> exact ⟨rfl, rfl, rfl, rfl, rfl, fun _ => Iff.rfl⟩
  | irqClear | irqAck | irqRirq | irqChar | polled | polledClear | polledReady =>
    obtain rfl := Option.some.inj h
    exact .same ⟨rfl, rfl, rfl, rfl, rfl, fun _ => Iff.rfl⟩
  | irqStart ctw got =>
    obtain rfl := Option.some.inj h
    cases ctw with
    | false => exact .same (hself.setMasked _)
    | true => exact .same ((conStart_input s).setMasked _)
  | irqInput got =>
    obtain rfl := Option.some.inj h
    cases got with
    | none => exact .same (hself.setMasked _)
    | some ch => exact .deliver ch hm
  | polledSend c irqpending =>
    obtain rfl := Option.some.inj h
    exact .same ((hself.storeChar c).setMasked _)
  | polledBusy | polledWait =>
    obtain ⟨-, h⟩ := Option.ite_none_right_eq_some.mp h
    obtain rfl := Option.some.inj h
    exact .same (hself.setMasked _)

theorem threadStep_input (h : ThreadTook s t s') : InputStep s (.thread t) s' := by
  have hself := InputSame.refl s
  cases h with
  | putSleep hp _ => exact .same (hself.goto (by simp [hp]) nofun)
  | acquire hp _ =>
    exact .same (InputSame.goto ⟨rfl, rfl, rfl, rfl, rfl, fun _ => Iff.rfl⟩ (by simp [hp]) nofun)
  | send hp =>
    refine .same (InputSame.goto (InputSame.lserWrite ?_ _) (by simp [hp]) nofun)
    exact ⟨rfl, rfl, rfl, rfl, rfl, fun _ => Iff.rfl⟩
  | getSleep hp _ => exact .same (hself.goto (by simp [hp]) nofun)
  | take hp hr => exact .take t hp hr
  | read hp => exact .read t hp

theorem step_input (h : step s a = some s') : InputStep s a s' := by
  cases step_took h with
  | complete | typed | putchMasked | interrupt =>
    exact .same ⟨rfl, rfl, rfl, rfl, rfl, fun _ => Iff.rfl⟩
  | masked hm h => exact maskedStep_input hm h
  | putch ch _ hp =>
    exact .same (InputSame.goto ⟨rfl, rfl, rfl, rfl, rfl, fun _ => Iff.rfl⟩ (by simp [hp]) nofun)
  | getch _ hp => exact .same ((InputSame.refl s).goto (by simp [hp]) nofun)
  | thread _ h => exact threadStep_input h

theorem Queued.take (h : Queued s) (hp : s.pc t = .getP) (hr : s.rsem ≠ 0) :
    Queued ({ s with rsem := s.rsem - 1, readers := t :: s.readers }.goto t .getRead) := by
  have hnot : t ∉ s.readers := by
    rw [h.reading t, hp]
    nofun
  refine ⟨fun x => ?_, List.nodup_cons.mpr ⟨hnot, h.nodup⟩, ?_⟩
  · show x ∈ t :: s.readers ↔ Function.update s.pc t .getRead x = .getRead
    rw [List.mem_cons, Function.update_apply, h.reading x]
    by_cases hx : x = t
    · rw [if_pos hx]
      exact iff_of_true (.inl hx) rfl
    · rw [if_neg hx]
      exact or_iff_right hx
  · have hone : s.rsem - 1 + (t :: s.readers).length = s.rsem + s.readers.length := by
      rw [List.length_cons]
      omega
    show s.delivered = s.returned ++ List.replicate (s.rsem - 1 + (t :: s.readers).length) s.gotchar
    rw [hone]
    exact h.queue

theorem Queued.read (h : Queued s) (hp : s.pc t = .getRead) :
    Queued ({ s with
      returned := s.returned ++ [s.gotchar], readers := s.readers.erase t }.goto t .out) := by
  have hmem : t ∈ s.readers := (h.reading t).mpr hp
  refine ⟨fun x => ?_, h.nodup.erase t, ?_⟩
  · show x ∈ s.readers.erase t ↔ Function.update s.pc t .out x = .getRead
    rw [h.nodup.mem_erase_iff, Function.update_apply, h.reading x]
    by_cases hx : x = t
    · rw [if_pos hx]
      exact iff_of_false (fun hne => hne.1 hx) nofun
    · rw [if_neg hx]
      exact and_iff_right hx
  · have hpos := List.length_pos_of_mem hmem
    have hone : s.rsem + s.readers.length = s.rsem + (s.readers.erase t).length + 1 := by
      rw [List.length_erase_of_mem hmem]
      omega
    show s.delivered = s.returned ++ [s.gotchar] ++
      List.replicate (s.rsem + (s.readers.erase t).length) s.gotchar
    rw [h.queue, hone, List.replicate_succ, List.append_assoc, List.singleton_append]

theorem Queued.step (h : Queued s) (hu : Unhurried s a) (hstep : step s a = some s') :
    Queued s' := by
  cases step_input hstep with
  | same hs => exact h.of_same hs
  | deliver ch hm =>
    refine h.deliver (hu ch ?_) none
    simp only [State.input?, hm, Option.mem_def]
  | take t hp hr => exact h.take hp hr
  | read t hp => exact h.read hp

/-- Whatever the threads, the port and the interrupts do, `getch` returns a subsequence of what was
typed and delivered, as long as each character comes when those before it have been returned. -/
theorem input_not_duplicated (ch : B) (acts : List (Act T B))
    (h : EachStep step Unhurried (boot ch : State T B) acts) :
    Throughout step NotDuplicated (boot ch) acts :=
  throughout_of_eachStep (fun _ => Queued.notDuplicated) (fun _ _ _ => Queued.step)
    (Queued.boot ch) h

/-- `a` is typed, a thread calls `getch`, and then the same with `b`. -/
def typedInTurn : List (Act Unit Char) :=
  [.typed 'a', .interrupt, .masked, .masked, .masked, .masked, .masked, .masked,
    .getch (), .thread (), .thread (),
    .typed 'b', .interrupt, .masked, .masked, .masked, .masked, .masked, .masked,
    .getch (), .thread (), .thread ()]

theorem input_not_duplicated_inTurn :
    EachStep step Unhurried (boot ' ' : State Unit Char) typedInTurn ∧
      (∃ s, run step (boot ' ' : State Unit Char) typedInTurn = some s ∧
        s.returned = ['a', 'b']) ∧
      Throughout step NotDuplicated (boot ' ' : State Unit Char) typedInTurn :=
  have h : EachStep step Unhurried (boot ' ' : State Unit Char) typedInTurn := by decide +kernel
  ⟨h, ⟨_, rfl, rfl⟩, input_not_duplicated ' ' typedInTurn h⟩

/-- `a` and `b` are typed, and then a thread calls `getch` twice. -/
def typedTwice : List (Act Unit Char) :=
  [.typed 'a', .interrupt, .masked, .masked, .masked, .masked, .masked, .masked,
    .typed 'b', .interrupt, .masked, .masked, .masked, .masked, .masked, .masked,
    .getch (), .thread (), .thread (), .getch (), .thread (), .thread ()]

/-- It gets `b` both times. -/
theorem typedTwice_duplicated :
    (∃ s, run step (boot ' ' : State Unit Char) typedTwice = some s ∧
      s.delivered = ['a', 'b'] ∧ s.returned = ['b', 'b']) ∧
      ¬ ∀ acts, Throughout step NotDuplicated (boot ' ' : State Unit Char) acts := by
  have hrun : ∃ s, run step (boot ' ' : State Unit Char) typedTwice = some s ∧
      s.delivered = ['a', 'b'] ∧ s.returned = ['b', 'b'] := ⟨_, rfl, rfl, rfl⟩
  refine ⟨hrun, fun h => ?_⟩
  obtain ⟨s, hs, hdelivered, hreturned⟩ := hrun
  have hsub : s.returned.Sublist s.delivered := (h typedTwice).last hs
  rw [hdelivered, hreturned] at hsub
  exact absurd hsub (by decide)

end Os161.Console

import Os161.Threads.Machine

/-! # What holds of every state of the thread machine

The interrupt levels fit the code each thread has left (`Level`), statements
stand where `synch.c` puts them (`Shape`), and a thread that does not run stands
at a switch. Atomicity follows: a thread in the middle of a raised section is
the current one and cannot be preempted. -/
set_option linter.unusedSectionVars false

namespace Os161.Threads

section Code

variable {S L C : Type}

/-- From level `hi`, with the levels `sv` to restore, the code enables interrupts
at the end only, and whatever needs them off has them off. -/
def Level : Bool → List Bool → List (Stmt S L C) → Prop
  | hi, sv, [] => hi = false ∧ sv = []
  | hi, sv, .splhigh :: c => Level true (hi :: sv) c
  | hi, sv, .splx :: c => hi = true ∧ ∃ b sv', sv = b :: sv' ∧ Level b sv' c
  | hi, sv, .hold _ :: c => Level hi sv c
  | hi, sv, .panicIf _ _ :: c => Level hi sv c
  | hi, sv, _ :: c => hi = true ∧ Level true sv c

/-- The code does not start with a statement that relies on the one before it. -/
def Plain : List (Stmt S L C) → Prop
  | .sleep _ :: _ | .splx :: .sleep _ :: _ | .assertCount _ _ :: _ | .decCount _ :: _
  | .setOwner _ :: _ | .wakeup (.lock _) :: _ => False
  | _ => True

/-- The code is not in the part of `lock_release` that relies on the owner. -/
def Settled : List (Stmt S L C) → Prop
  | .splx :: c => Settled c
  | .panicIf false .lockNotOwner :: _ | .splhigh :: .clearOwner _ :: _ | .clearOwner _ :: _ => False
  | _ => True

/-- What follows a statement in the code of `synch.c`. -/
def Follows : Stmt S L C → List (Stmt S L C) → Prop
  | .splhigh, c => Plain c ∧ (Settled c ∨ ∃ l r, c = .clearOwner l :: r)
  | .splx, c => Plain c ∨ ∃ x r, c = .sleep (.cv x) :: r
  | .sleep (.sem x), c => ∃ r, c = .wake :: .whileZero x :: r
  | .sleep (.lock l), c => ∃ r, c = .wake :: .whileOwned l :: r
  | .sleep (.cv _), c => ∃ l r, c = .wake :: (lockAcquire l ++ .splx :: r)
  | .whileZero x, c => ∃ r, c = .assertCount x .semP :: .decCount x :: r
  | .assertCount x .semP, c => ∃ r, c = .decCount x :: r
  | .assertCount x .semV, c => ∃ r, c = .wakeup (.sem x) :: r
  | .assertCount _ _, _ => False
  | .incCount x, c => ∃ r, c = .assertCount x .semV :: .wakeup (.sem x) :: r
  | .whileOwned l, c => ∃ r, c = .setOwner l :: .splx :: r
  | .setOwner _, c => (∃ r, c = .splx :: r) ∧ Plain c ∧ Settled c
  | .clearOwner l, c => ∃ r, c = .wakeup (.lock l) :: .splx :: r
  | .hold l, c => ((∃ r, c = .splx :: r) ∧ Plain c ∧ Settled c) ∨
      ∃ r, c = .panicIf false .lockNotOwner :: .splhigh :: .clearOwner l :: r
  | .panicIf true m, c => m = .lockDeadlock ∧ ∃ l r, c = .whileOwned l :: r
  | .panicIf false m, c => m = .cvNotHolder ∧ Plain c ∧ Settled c ∨
      m = .lockNotOwner ∧ ∃ l r, c = .splhigh :: .clearOwner l :: r
  | .wakeup (.lock _), c => Plain c ∧ Settled c ∨ ∃ x r, c = .splx :: .sleep (.cv x) :: r
  | .wake, c | .wakeup _, c | .wakeone _, c | .decCount _, c => Plain c ∧ Settled c

def Shape : List (Stmt S L C) → Prop
  | [] => True
  | st :: c => Follows st c ∧ Shape c

/-- After a wake-up either the call is over or `cv_wait` goes to sleep. -/
theorem follows_wakeup {a : Addr S L C} {c : List (Stmt S L C)} (h : Follows (.wakeup a) c) :
    Plain c ∧ Settled c ∨ (∃ l, a = .lock l) ∧ ∃ x r, c = .splx :: .sleep (.cv x) :: r := by
  cases a with
  | lock l => exact h.imp_right fun h => ⟨⟨l, rfl⟩, h⟩
  | _ => exact .inl h

theorem Call.level (c : Call S L C) : Level false [] c.code := by
  cases c <;>
    simp [Call.code, P, V, lockAcquire, lockRelease, lockDoIHold, cvWait, cvSignal, cvBroadcast,
      Level]

theorem Call.shape (c : Call S L C) : Shape c.code := by
  cases c <;>
    simp [Call.code, P, V, lockAcquire, lockRelease, lockDoIHold, cvWait, cvSignal, cvBroadcast,
      Shape, Follows, Plain, Settled]

theorem Call.plain (c : Call S L C) : Plain c.code := by
  cases c <;> trivial

/-- With interrupts enabled no such statement is next. -/
theorem Level.plain {sv : List Bool} {c : List (Stmt S L C)} (h : Level false sv c) : Plain c := by
  cases c with
  | nil => trivial
  | cons st c =>
    cases st with
    | sleep | assertCount | decCount | setOwner | wakeup | splx => cases h.1
    | _ => trivial

end Code

variable {T S L C : Type} [DecidableEq T] [DecidableEq S] [DecidableEq L] [DecidableEq C]
  {s s' : State T S L C} {t u : T}

@[simp] theorem upd_same {α β : Type} [DecidableEq α] (f : α → β) (a : α) (b : β) :
    upd f a b a = b := if_pos rfl

theorem upd_other {α β : Type} [DecidableEq α] (f : α → β) {a x : α} (b : β) (h : x ≠ a) :
    upd f a b x = f x := if_neg h

/-! ## Frames -/

namespace State

@[simp] theorem code_wakeup (s : State T S L C) (a : Addr S L C) : (s.wakeup a).code = s.code := rfl
@[simp] theorem saved_wakeup (s : State T S L C) (a : Addr S L C) :
    (s.wakeup a).saved = s.saved := rfl
@[simp] theorem sleepaddr_wakeup (s : State T S L C) (a : Addr S L C) :
    (s.wakeup a).sleepaddr = s.sleepaddr := rfl
@[simp] theorem cur_wakeup (s : State T S L C) (a : Addr S L C) : (s.wakeup a).cur = s.cur := rfl
@[simp] theorem high_wakeup (s : State T S L C) (a : Addr S L C) : (s.wakeup a).high = s.high := rfl
@[simp] theorem count_wakeup (s : State T S L C) (a : Addr S L C) :
    (s.wakeup a).count = s.count := rfl
@[simp] theorem owner_wakeup (s : State T S L C) (a : Addr S L C) :
    (s.wakeup a).owner = s.owner := rfl
@[simp] theorem held_wakeup (s : State T S L C) (a : Addr S L C) : (s.wakeup a).held = s.held := rfl
@[simp] theorem panic_wakeup (s : State T S L C) (a : Addr S L C) :
    (s.wakeup a).panic = s.panic := rfl

/-- Only the lists of threads change when one thread is woken. -/
theorem wakeone_eq (s : State T S L C) (a : Addr S L C) :
    s.wakeone a = { s with
      sleepers := (s.wakeone a).sleepers
      ready := (s.wakeone a).ready } := by
  unfold wakeone
  split <;> rfl

@[simp] theorem code_wakeone (s : State T S L C) (a : Addr S L C) :
    (s.wakeone a).code = s.code := by
  rw [wakeone_eq]
@[simp] theorem saved_wakeone (s : State T S L C) (a : Addr S L C) :
    (s.wakeone a).saved = s.saved := by rw [wakeone_eq]
@[simp] theorem sleepaddr_wakeone (s : State T S L C) (a : Addr S L C) :
    (s.wakeone a).sleepaddr = s.sleepaddr := by rw [wakeone_eq]
@[simp] theorem cur_wakeone (s : State T S L C) (a : Addr S L C) : (s.wakeone a).cur = s.cur := by
  rw [wakeone_eq]
@[simp] theorem high_wakeone (s : State T S L C) (a : Addr S L C) :
    (s.wakeone a).high = s.high := by rw [wakeone_eq]
@[simp] theorem count_wakeone (s : State T S L C) (a : Addr S L C) :
    (s.wakeone a).count = s.count := by rw [wakeone_eq]
@[simp] theorem owner_wakeone (s : State T S L C) (a : Addr S L C) :
    (s.wakeone a).owner = s.owner := by rw [wakeone_eq]
@[simp] theorem held_wakeone (s : State T S L C) (a : Addr S L C) :
    (s.wakeone a).held = s.held := by rw [wakeone_eq]
@[simp] theorem panic_wakeone (s : State T S L C) (a : Addr S L C) :
    (s.wakeone a).panic = s.panic := by rw [wakeone_eq]

/-- All threads that can still run. -/
def all (s : State T S L C) : List T := s.cur.toList ++ (s.ready ++ s.sleepers)

theorem wakeup_perm (s : State T S L C) (a : Addr S L C) :
    ((s.wakeup a).ready ++ (s.wakeup a).sleepers).Perm (s.ready ++ s.sleepers) := by
  have h := List.filter_append_perm (fun t => s.sleepaddr t = some a) s.sleepers
  have hn : s.sleepers.filter (fun t => !decide (s.sleepaddr t = some a)) =
      s.sleepers.filter fun t => s.sleepaddr t ≠ some a := by
    refine List.filter_congr fun t _ => ?_
    simp
  rw [hn] at h
  rw [wakeup, List.append_assoc]
  exact h.append_left s.ready

theorem wakeone_perm (s : State T S L C) (a : Addr S L C) :
    ((s.wakeone a).ready ++ (s.wakeone a).sleepers).Perm (s.ready ++ s.sleepers) := by
  unfold wakeone
  split
  · exact .refl _
  · next t ht =>
    have hp := List.perm_cons_erase (List.mem_of_find?_eq_some ht)
    dsimp only
    rw [List.append_assoc]
    exact (hp.symm).append_left s.ready

theorem mem_ready_wakeup {a : Addr S L C} (h : u ∈ (s.wakeup a).ready) :
    u ∈ s.ready ∨ u ∈ s.sleepers ∧ s.sleepaddr u = some a := by
  rcases List.mem_append.mp h with h | h
  · exact .inl h
  · exact .inr ⟨(List.mem_filter.mp h).1, of_decide_eq_true (List.mem_filter.mp h).2⟩

theorem mem_sleepers_wakeup {a : Addr S L C} :
    u ∈ (s.wakeup a).sleepers ↔ u ∈ s.sleepers ∧ s.sleepaddr u ≠ some a := by
  simp [wakeup]

theorem mem_ready_wakeone {a : Addr S L C} (h : u ∈ (s.wakeone a).ready) :
    u ∈ s.ready ∨ u ∈ s.sleepers ∧ s.sleepaddr u = some a := by
  unfold wakeone at h
  split at h
  · exact .inl h
  · next t ht =>
    rcases List.mem_append.mp h with h | h
    · exact .inl h
    · obtain rfl := List.mem_singleton.mp h
      exact .inr ⟨List.mem_of_find?_eq_some ht, by simpa using List.find?_some ht⟩

theorem mem_sleepers_wakeone {a : Addr S L C} (h : u ∈ (s.wakeone a).sleepers) :
    u ∈ s.sleepers := by
  unfold wakeone at h
  split at h
  · exact h
  · exact List.mem_of_mem_erase h

end State

/-- Interrupts are enabled or threads are being switched. -/
def State.Open (s : State T S L C) : Prop := s.cur = none ∨ s.high = false

/-! ## The invariant -/

/-- A thread on the run queue stands at a switch: in `thread_sleep`, or about to
go back to code that runs with interrupts enabled. -/
def Parked (s : State T S L C) (t : T) : Prop :=
  Level true (s.saved t) (s.code t) ∧
    ((∃ r, s.code t = .wake :: r) ∨ ∃ r sv, s.code t = .splx :: r ∧ s.saved t = false :: sv)

structure Inv (s : State T S L C) : Prop where
  nodup : s.all.Nodup
  run : ∀ t, s.cur = some t → Level s.high (s.saved t) (s.code t)
  ready : ∀ t ∈ s.ready, Parked s t
  asleep : ∀ t ∈ s.sleepers, Level true (s.saved t) (s.code t) ∧
    ∃ a, s.sleepaddr t = some a ∧ Follows (.sleep a) (s.code t)
  idle : s.cur = none → s.high = true
  shape : ∀ t, Shape (s.code t)

theorem follows_sleep {a : Addr S L C} {c : List (Stmt S L C)} (h : Follows (.sleep a) c) :
    ∃ r, c = .wake :: r := by
  cases a with
  | sem x => exact ⟨_, h.choose_spec⟩
  | lock l => exact ⟨_, h.choose_spec⟩
  | cv c =>
    obtain ⟨l, r, hc⟩ := h
    exact ⟨_, hc⟩

namespace Inv

theorem initial {threads : List T} (hn : threads.Nodup) (count : S → Int) :
    Inv (State.initial threads count : State T S L C) where
  nodup := by simpa [State.all, State.initial] using hn
  run t ht := by cases ht
  ready t _ := ⟨⟨rfl, false, [], rfl, rfl, rfl⟩, .inr ⟨[], [], rfl, rfl⟩⟩
  asleep t ht := by cases ht
  idle _ := rfl
  shape t := ⟨.inl trivial, trivial⟩

variable (h : Inv s)
include h

theorem cur_not_mem (hc : s.cur = some t) : t ∉ s.ready ∧ t ∉ s.sleepers := by
  have hn := h.nodup
  rw [State.all, hc, Option.toList_some, List.singleton_append, List.nodup_cons] at hn
  exact ⟨fun hm => hn.1 (List.mem_append_left _ hm), fun hm => hn.1 (List.mem_append_right _ hm)⟩

/-- The current thread goes on, the others stay. -/
theorem goOn (hc : s.cur = some t) (hcur : s'.cur = some t) (hr : s'.ready = s.ready)
    (hs : s'.sleepers = s.sleepers) (ha : ∀ u, u ≠ t → s'.sleepaddr u = s.sleepaddr u)
    (hcode : ∀ u, u ≠ t → s'.code u = s.code u) (hsaved : ∀ u, u ≠ t → s'.saved u = s.saved u)
    (hl : Level s'.high (s'.saved t) (s'.code t)) (hsh : Shape (s'.code t)) : Inv s' := by
  obtain ⟨hnr, hns⟩ := h.cur_not_mem hc
  refine ⟨?_, ?_, ?_, ?_, ?_, ?_⟩
  · have hn := h.nodup
    rw [State.all, hc] at hn
    rwa [State.all, hcur, hr, hs]
  · intro u hu
    rw [hcur] at hu
    cases hu
    exact hl
  · intro u hu
    rw [hr] at hu
    have hne : u ≠ t := fun he => hnr (he ▸ hu)
    rw [Parked, hcode u hne, hsaved u hne]
    exact h.ready u hu
  · intro u hu
    rw [hs] at hu
    have hne : u ≠ t := fun he => hns (he ▸ hu)
    rw [hcode u hne, hsaved u hne, ha u hne]
    exact h.asleep u hu
  · intro hn
    rw [hcur] at hn
    cases hn
  · intro u
    by_cases hne : u = t
    · rw [hne]
      exact hsh
    · rw [hcode u hne]
      exact h.shape u

/-- Sleepers become runnable. -/
theorem moved (hcur : s'.cur = s.cur) (hcode : s'.code = s.code) (hsaved : s'.saved = s.saved)
    (ha : s'.sleepaddr = s.sleepaddr) (hh : s'.high = s.high)
    (hp : (s'.ready ++ s'.sleepers).Perm (s.ready ++ s.sleepers))
    (hr : ∀ u ∈ s'.ready, u ∈ s.ready ∨ u ∈ s.sleepers) (hs : ∀ u ∈ s'.sleepers, u ∈ s.sleepers) :
    Inv s' := by
  refine ⟨?_, ?_, ?_, ?_, ?_, ?_⟩
  · have hn := h.nodup
    rw [State.all] at hn ⊢
    rw [hcur]
    exact ((hp.append_left _).nodup_iff).mpr hn
  · rw [hcur, hcode, hsaved, hh]
    exact h.run
  · intro u hu
    rw [Parked, hcode, hsaved]
    rcases hr u hu with hu | hu
    · exact h.ready u hu
    · obtain ⟨hl, a, -, hf⟩ := h.asleep u hu
      exact ⟨hl, .inl (follows_sleep hf)⟩
  · intro u hu
    rw [hcode, hsaved, ha]
    exact h.asleep u (hs u hu)
  · rw [hcur, hh]
    exact h.idle
  · rw [hcode]
    exact h.shape

theorem wakeup (a : Addr S L C) : Inv (s.wakeup a) :=
  h.moved rfl rfl rfl rfl rfl (s.wakeup_perm a)
    (fun _ hu => (State.mem_ready_wakeup hu).imp_right And.left)
    fun _ hu => (State.mem_sleepers_wakeup.mp hu).1

theorem wakeone (a : Addr S L C) : Inv (s.wakeone a) :=
  h.moved (s.cur_wakeone a) (s.code_wakeone a) (s.saved_wakeone a) (s.sleepaddr_wakeone a)
    (s.high_wakeone a) (s.wakeone_perm a)
    (fun _ hu => (State.mem_ready_wakeone hu).imp_right And.left)
    fun _ hu => State.mem_sleepers_wakeone hu

/-- The current thread goes on with `c`. -/
theorem goTo (hc : s.cur = some t) {c : List (Stmt S L C)} (hl : Level s.high (s.saved t) c)
    (hsh : Shape c) : Inv { s with code := upd s.code t c } :=
  h.goOn hc hc rfl rfl (fun _ _ => rfl) (fun u hu => upd_other _ _ hu) (fun _ _ => rfl)
    (by simpa using hl) (by simpa using hsh)

/-- Only what the lists and the code of threads do not depend on changed. -/
theorem data {s' : State T S L C} (hs : s' = { s with
    count := s'.count, owner := s'.owner, held := s'.held, panic := s'.panic }) : Inv s' := by
  rw [hs]
  exact ⟨h.nodup, h.run, h.ready, h.asleep, h.idle, h.shape⟩

theorem goToSleep (hc : s.cur = some t) {a : Addr S L C} {c : List (Stmt S L C)}
    (hcode : s.code t = .sleep a :: c) : Inv (s.exec t c (.sleep a)) := by
  obtain ⟨hnr, hns⟩ := h.cur_not_mem hc
  have hlev := h.run t hc
  have hsh := h.shape t
  rw [hcode] at hlev hsh
  refine ⟨?_, ?_, ?_, ?_, ?_, ?_⟩
  · have hn := h.nodup
    rw [State.all, hc] at hn
    have hp : (s.ready ++ (s.sleepers ++ [t])).Perm (t :: (s.ready ++ s.sleepers)) := by
      rw [← List.append_assoc]
      exact List.perm_append_singleton t _
    exact hp.nodup_iff.mpr hn
  · intro u hu
    cases hu
  · intro u hu
    have hne : u ≠ t := fun he => hnr (he ▸ hu)
    have := h.ready u hu
    simpa only [Parked, State.exec, upd_other _ _ hne] using this
  · intro u hu
    rcases List.mem_append.mp hu with hu | hu
    · have hne : u ≠ t := fun he => hns (he ▸ hu)
      have := h.asleep u hu
      simpa only [State.exec, upd_other _ _ hne] using this
    · obtain rfl := List.mem_singleton.mp hu
      simp only [State.exec, upd_same]
      exact ⟨hlev.2, a, rfl, hsh.1⟩
  · exact fun _ => hlev.1
  · intro u
    by_cases hne : u = t
    · rw [hne]
      simp only [State.exec, upd_same]
      exact hsh.2
    · simp only [State.exec, upd_other _ _ hne]
      exact h.shape u

theorem exec (hc : s.cur = some t) {st : Stmt S L C} {c : List (Stmt S L C)}
    (hcode : s.code t = st :: c) : Inv (s.exec t c st) := by
  have hl := h.run t hc
  have hsh := h.shape t
  rw [hcode] at hl hsh
  obtain ⟨hf, hsh⟩ := hsh
  cases st with
  | splhigh =>
    refine h.goOn hc hc rfl rfl (fun _ _ => rfl) (fun u hu => upd_other _ _ hu)
      (fun u hu => upd_other _ _ hu) ?_ ?_
    · have hl' : Level true (s.high :: s.saved t) c := hl
      simpa only [State.exec, upd_same] using hl'
    · simpa only [State.exec, upd_same] using hsh
  | splx =>
    obtain ⟨-, b, sv, hsv, hl⟩ := hl
    refine h.goOn hc hc rfl rfl (fun _ _ => rfl) (fun u hu => upd_other _ _ hu)
      (fun u hu => upd_other _ _ hu) ?_ ?_
    · simpa only [State.exec, upd_same, hsv, List.headD_cons, List.tail_cons] using hl
    · simpa only [State.exec, upd_same] using hsh
  | sleep a => exact h.goToSleep hc hcode
  | wake =>
    refine h.goOn hc hc rfl rfl (fun u hu => upd_other _ _ hu) (fun u hu => upd_other _ _ hu)
      (fun _ _ => rfl) ?_ ?_
    · have hh : s.high = true := hl.1
      simpa only [State.exec, upd_same, hh] using hl.2
    · simpa only [State.exec, upd_same] using hsh
  | wakeup a =>
    have hh : s.high = true := hl.1
    exact (h.goTo hc (hh ▸ hl.2) hsh).wakeup a
  | wakeone a =>
    have hh : s.high = true := hl.1
    exact (h.goTo hc (hh ▸ hl.2) hsh).wakeone a
  | whileZero x =>
    have hh : s.high = true := hl.1
    simp only [State.exec]
    split
    · refine h.goTo hc ?_ ⟨⟨_, rfl⟩, ⟨trivial, trivial⟩, hf, hsh⟩
      rw [hh]
      exact ⟨rfl, rfl, rfl, hl.2⟩
    · exact h.goTo hc (hh ▸ hl.2) hsh
  | assertCount x m =>
    have hh : s.high = true := hl.1
    simp only [State.exec]
    split
    · exact h.goTo hc (hh ▸ hl.2) hsh
    · exact h.data rfl
  | decCount x =>
    have hh : s.high = true := hl.1
    exact (h.goTo hc (hh ▸ hl.2) hsh).data rfl
  | incCount x =>
    have hh : s.high = true := hl.1
    exact (h.goTo hc (hh ▸ hl.2) hsh).data rfl
  | hold l =>
    have hl' : Level s.high (s.saved t) c := hl
    exact (h.goTo hc hl' hsh).data rfl
  | panicIf b m =>
    simp only [State.exec]
    split
    · exact h.data rfl
    · have hl' : Level s.high (s.saved t) c := hl
      exact h.goTo hc hl' hsh
  | whileOwned l =>
    have hh : s.high = true := hl.1
    simp only [State.exec]
    split
    · refine h.goTo hc ?_ ⟨⟨_, rfl⟩, ⟨trivial, trivial⟩, hf, hsh⟩
      rw [hh]
      exact ⟨rfl, rfl, rfl, hl.2⟩
    · exact h.goTo hc (hh ▸ hl.2) hsh
  | setOwner l =>
    have hh : s.high = true := hl.1
    exact (h.goTo hc (hh ▸ hl.2) hsh).data rfl
  | clearOwner l =>
    have hh : s.high = true := hl.1
    exact (h.goTo hc (hh ▸ hl.2) hsh).data rfl

theorem preempt (hc : s.cur = some t) (hh : s.high = false) : Inv (s.preempt t) := by
  obtain ⟨hnr, hns⟩ := h.cur_not_mem hc
  have hl := h.run t hc
  rw [hh] at hl
  refine ⟨?_, ?_, ?_, ?_, fun _ => rfl, ?_⟩
  · have hn := h.nodup
    rw [State.all, hc] at hn
    have hp : (s.ready ++ [t] ++ s.sleepers).Perm (t :: (s.ready ++ s.sleepers)) :=
      (List.perm_append_singleton t s.ready).append_right s.sleepers
    exact hp.nodup_iff.mpr hn
  · intro u hu
    cases hu
  · intro u hu
    rcases List.mem_append.mp hu with hu | hu
    · have hne : u ≠ t := fun he => hnr (he ▸ hu)
      have := h.ready u hu
      simpa only [Parked, State.preempt, upd_other _ _ hne] using this
    · obtain rfl := List.mem_singleton.mp hu
      simp only [Parked, State.preempt, upd_same, hh]
      exact ⟨⟨rfl, _, _, rfl, hl⟩, .inr ⟨_, _, rfl, rfl⟩⟩
  · intro u hu
    have hne : u ≠ t := fun he => hns (he ▸ hu)
    have := h.asleep u hu
    simpa only [State.preempt, upd_other _ _ hne] using this
  · intro u
    by_cases hne : u = t
    · rw [hne]
      simp only [State.preempt, upd_same]
      exact ⟨.inl hl.plain, h.shape t⟩
    · simp only [State.preempt, upd_other _ _ hne]
      exact h.shape u

theorem interruptV (x : S) : Inv (s.interruptV x) := by
  have hi : Inv (s.incCount x) := h.data rfl
  unfold State.interruptV
  dsimp only
  split
  · exact hi.wakeup _
  · exact hi.data rfl

theorem dispatch {rest : List T} (hc : s.cur = none) (hr : s.ready = t :: rest) :
    Inv { s with ready := rest, cur := some t } := by
  have hn := h.nodup
  rw [State.all, hc, hr] at hn
  refine ⟨hn, ?_, ?_, h.asleep, (fun hn => by cases hn), h.shape⟩
  · intro u hu
    cases hu
    have := (h.ready t (hr ▸ List.mem_cons_self)).1
    rwa [← h.idle hc] at this
  · intro u hu
    exact h.ready u (hr ▸ List.mem_cons_of_mem t hu)

theorem exit (hc : s.cur = some t) : Inv { s with high := true, cur := none } := by
  have hn := h.nodup
  rw [State.all, hc] at hn
  exact ⟨(List.nodup_cons.mp hn).2, (fun u hu => by cases hu), h.ready, h.asleep, fun _ => rfl,
    h.shape⟩

theorem call (hc : s.cur = some t) (hcode : s.code t = []) (c : Call S L C) :
    Inv { s with code := upd s.code t c.code } := by
  have hl := h.run t hc
  rw [hcode] at hl
  refine h.goTo hc ?_ c.shape
  rw [hl.1, hl.2]
  exact c.level

theorem step {a : Act S L C} (hs : s.step a = some s') : Inv s' := by
  cases (State.step_cases hs).2 with
  | exec hc hcode => exact h.exec hc hcode
  | call c hc hcode => exact h.call hc hcode c
  | exit hc hcode => exact h.exit hc
  | preempt hc hh => exact h.preempt hc hh
  | interrupt x _ => exact h.interruptV x
  | dispatch hc hr => exact h.dispatch hc hr

theorem run' {tr : List (State T S L C × Act S L C)} (hr : Run s tr s') : Inv s' := by
  induction hr with
  | nil => exact h
  | snoc _ hs ih => exact ih.step hs

end Inv

end Os161.Threads

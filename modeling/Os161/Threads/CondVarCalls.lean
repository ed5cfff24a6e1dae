import Os161.Threads.CondVar

/-! # Calls of condition variables

A thread in `cv_wait` gets past `thread_sleep` by a signal only and then gets the
lock back; a call of `cv_signal` or `cv_broadcast` by the holder of the lock wakes
threads in one of its steps, the head of the queue or all of it. -/
set_option linter.unusedSectionVars false

namespace Os161.Threads

variable {T S L C : Type} [DecidableEq T] [DecidableEq S] [DecidableEq L] [DecidableEq C]
  {s s' : State T S L C} {t : T}

/-! ## A thread in `cv_wait` -/

/-- The signals on `c`. -/
def Wakes (c : C) (e : State T S L C × Act S L C) : Prop :=
  e.2 = .exec ∧ ∃ u r, e.1.cur = some u ∧
    (e.1.code u = .wakeone (.cv c) :: r ∨ e.1.code u = .wakeup (.cv c) :: r)

/-- Only a signal takes a thread off the queue. -/
theorem wakes_of_lost {c : C} {w : List T} {e : State T S L C × Act S L C} (ht : t ∈ w)
    (hn : t ∉ waitingStep c w e) : Wakes c e := by
  unfold waitingStep at hn
  split at hn
  · next u ha hc =>
    split at hn
    · split at hn
      · exact absurd (List.mem_append_left _ ht) hn
      · exact absurd ht hn
    · next c' r hcode =>
      split at hn
      · next he => exact ⟨ha, u, r, hc, .inl (he ▸ hcode)⟩
      · exact absurd ht hn
    · next c' r hcode =>
      split at hn
      · next he => exact ⟨ha, u, r, hc, .inr (he ▸ hcode)⟩
      · exact absurd ht hn
    · exact absurd ht hn
  · exact absurd ht hn

/-- Thread `t` is in `cv_wait` and has not been signalled: it stands before
`thread_sleep`, perhaps preempted before the first statement, or sleeps. -/
def Unsignalled (s : State T S L C) (t : T) (c : C) (l : L) : Prop :=
  (∃ n ≤ 7, s.code t = (cvWait c l).drop n) ∨ s.code t = .splx :: cvWait c l ∨
    t ∈ s.sleepers ∧ s.sleepaddr t = some (.cv c) ∧ s.code t = (cvWait c l).drop 8

/-- It has been signalled and is getting the lock back. -/
def Reacquiring (s : State T S L C) (t : T) (c : C) (l : L) : Prop :=
  s.code t = (cvWait c l).drop 8 ∨ Acquiring s t l [.splx]

theorem cvWait_eq (c : C) (l : L) : (cvWait c l : List (Stmt S L C)) =
    [.splhigh, .hold l, .panicIf false .lockNotOwner, .splhigh, .clearOwner l, .wakeup (.lock l),
      .splx, .sleep (.cv c), .wake, .splhigh, .splhigh, .hold l, .splx, .panicIf true .lockDeadlock,
      .whileOwned l, .setOwner l, .splx, .splx] := rfl

theorem Unsignalled.exec {c : C} {l : L} (hi : Inv s) (h : Unsignalled s t c l)
    (hc : s.cur = some t) {st : Stmt S L C} {r : List (Stmt S L C)} (hcode : s.code t = st :: r) :
    Unsignalled (s.exec t r st) t c l := by
  rcases h with ⟨n, hn, hn'⟩ | hn' | ⟨hm, -⟩
  · have hcase := hn'.symm.trans hcode
    by_cases hlast : n = 7
    · subst hlast
      obtain ⟨rfl, rfl⟩ := List.cons.inj hcase
      refine .inr (.inr ⟨List.mem_append_right _ (List.mem_singleton.mpr rfl), ?_, ?_⟩)
      · exact upd_same _ _ _
      · exact upd_same _ _ _
    · refine .inl ?_
      by_cases hp : n = 2 ∧ s.held t = false
      · obtain ⟨rfl, hheld⟩ := hp
        obtain ⟨rfl, rfl⟩ := List.cons.inj hcase
        refine ⟨2, by omega, ?_⟩
        simp only [State.exec, hheld, if_true]
        exact hcode
      · refine ⟨n + 1, by omega, ?_⟩
        have : n < 7 := by omega
        interval_cases n <;> obtain ⟨rfl, rfl⟩ := List.cons.inj hcase
        · exact upd_same _ _ _
        · exact upd_same _ _ _
        · have hheld : ¬ s.held t = false := fun he => hp ⟨rfl, he⟩
          simp only [State.exec, if_neg hheld]
          exact upd_same _ _ _
        · exact upd_same _ _ _
        · exact upd_same _ _ _
        · exact upd_same _ _ _
        · exact upd_same _ _ _
  · rw [hcode] at hn'
    cases hn'
    exact .inl ⟨0, by omega, upd_same _ _ _⟩
  · exact absurd hm (hi.cur_not_mem hc).2

theorem Unsignalled.ne_nil {c : C} {l : L} (h : Unsignalled s t c l) : s.code t ≠ [] := by
  rcases h with ⟨n, hn, h⟩ | h | ⟨-, -, h⟩
  · rw [h]
    interval_cases n <;> simp [cvWait_eq]
  · rw [h]
    simp
  · rw [h]
    simp [cvWait_eq]

theorem Reacquiring.ne_nil {c : C} {l : L} (h : Reacquiring s t c l) : s.code t ≠ [] := by
  rcases h with h | h
  · rw [h]
    simp [cvWait_eq]
  · exact h.ne_nil

/-- A thread in `cv_wait` stays unsignalled until a signal takes it off the queue. -/
theorem Unsignalled.step {w : C → List T} {c : C} {l : L} (hi : Inv s) (h : CvInv s w)
    (hu : Unsignalled s t c l) {a : Act S L C} (hs : s.step a = some s') :
    Unsignalled s' t c l ∨
      Reacquiring s' t c l ∧ t ∈ w c ∧ t ∉ waitingStep c (w c) (s, a) := by
  by_cases hcur : s.cur = some t
  · left
    cases (State.step_cases hs).2 with
    | exec hc hcode =>
      rw [hcur] at hc
      cases hc
      exact hu.exec hi hcur hcode
    | call c' hc hcode | exit hc hcode =>
      rw [hcur] at hc
      cases hc
      exact absurd hcode hu.ne_nil
    | preempt hc hh =>
      rw [hcur] at hc
      cases hc
      have hl := hi.run t hcur
      rw [hh] at hl
      rcases hu with ⟨n, hn, hcode⟩ | hcode | ⟨hm, -⟩
      · rw [hcode] at hl
        obtain rfl : n = 0 := by
          by_contra hne
          interval_cases n <;> simp [cvWait_eq, Level] at hl hne
        refine .inr (.inl ?_)
        rw [← List.drop_zero (l := cvWait c l), ← hcode]
        exact upd_same _ _ _
      · rw [hcode] at hl
        cases hl.1
      · exact absurd hm (hi.cur_not_mem hcur).2
    | interrupt x hint =>
      rcases hu with ⟨n, hn, hcode⟩ | hcode | ⟨hm, -⟩
      · exact .inl ⟨n, hn, by rw [code_interruptV, hcode]⟩
      · exact .inr (.inl (by rw [code_interruptV, hcode]))
      · exact absurd hm (hi.cur_not_mem hcur).2
    | dispatch hc hr =>
      rw [hcur] at hc
      cases hc
  · have hcode' := code_other hs hcur
    rcases hu with ⟨n, hn, hcode⟩ | hcode | ⟨hm, ha, hcode⟩
    · exact .inl (.inl ⟨n, hn, hcode'.trans hcode⟩)
    · exact .inl (.inr (.inl (hcode'.trans hcode)))
    · by_cases hm' : t ∈ s'.onCv c
      · have hm' := List.mem_filter.mp hm'
        exact .inl (.inr (.inr ⟨hm'.1, of_decide_eq_true hm'.2, hcode'.trans hcode⟩))
      · refine .inr ⟨.inl (hcode'.trans hcode), ?_, ?_⟩
        · rw [h.queue c]
          exact List.mem_append_left _ (List.mem_filter.mpr ⟨hm, decide_eq_true ha⟩)
        · rw [(h.step hi hs).queue c]
          intro hmem
          rcases List.mem_append.mp hmem with hmem | hmem
          · exact hm' hmem
          · unfold State.entrant at hmem
            split at hmem
            · next u hc =>
              split at hmem
              · next hent =>
                obtain rfl := List.mem_singleton.mp hmem
                rw [hcode', hcode] at hent
                cases hent
              · cases hmem
            · cases hmem

/-- Getting the lock back, a thread goes on in `lock_acquire` until it owns the lock. -/
theorem Reacquiring.step {c : C} {l : L} (hi : Inv s) (hu : Reacquiring s t c l) {a : Act S L C}
    (hs : s.step a = some s') : Reacquiring s' t c l ∨ Returning s' t l := by
  rcases hu with hn | hu
  · by_cases hcur : s.cur = some t
    · cases (State.step_cases hs).2 with
      | exec hc hcode =>
        rw [hcur] at hc
        cases hc
        obtain ⟨rfl, rfl⟩ := List.cons.inj (hn.symm.trans hcode)
        exact .inl (.inr (.inr (.inl ⟨0, by omega, upd_same _ _ _⟩)))
      | call c' hc hcode | exit hc hcode =>
        rw [hcur] at hc
        cases hc
        rw [hcode] at hn
        simp [cvWait_eq] at hn
      | preempt hc hh =>
        rw [hcur] at hc
        cases hc
        have hl := hi.run t hcur
        rw [hh, hn] at hl
        cases hl.1
      | interrupt x hint => exact .inl (.inl (by rw [code_interruptV, hn]))
      | dispatch hc hr =>
        rw [hcur] at hc
        cases hc
    · exact .inl (.inl ((code_other hs hcur).trans hn))
  · exact (hu.step hi (.inr rfl) hs).imp_left .inr

/-- A thread that called `cv_wait` gets past `thread_sleep` only by a signal. -/
theorem Unsignalled.run {w : C → List T} {c : C} {l : L} (hi : Inv s) (hl : LockInv s)
    (h : CvInv s w) (hu : Unsignalled s t c l) {tr : List (State T S L C × Act S L C)}
    (hr : Run s tr s') (hne : ∀ e ∈ tr, e.1.code t ≠ []) :
    Unsignalled s' t c l ∨ (Reacquiring s' t c l ∨ Returning s' t l) ∧
      ∃ m₁ e m₂, tr = m₁ ++ e :: m₂ ∧ t ∈ m₁.foldl (waitingStep c) (w c) ∧
        t ∉ waitingStep c (m₁.foldl (waitingStep c) (w c)) e := by
  induction hr with
  | nil => exact .inl hu
  | @snoc s₁ s' tr a hr hs ih =>
    have hi₁ := hi.run' hr
    rcases ih fun e he => hne e (List.mem_append_left _ he) with hu | ⟨hstage, m₁, e, m₂, rfl, hm⟩
    · rcases hu.step hi₁ (h.run' hi hr) hs with hu | ⟨hre, hm⟩
      · exact .inl hu
      · exact .inr ⟨.inl hre, tr, (s₁, a), [], rfl, hm⟩
    · refine .inr ⟨?_, m₁, e, m₂ ++ [(s₁, a)], by simp, hm⟩
      rcases hstage with hre | hret
      · exact hre.step hi₁ hs
      · exact .inr (hret.step hi₁ (hl.run' hi hr)
          (hne (s₁, a) (List.mem_append_right _ List.mem_cons_self)) hs)

/-- `cv_signal` moves the head of the queue to the run queue. -/
theorem signal_moves {w : C → List T} {c : C} {r : List (Stmt S L C)} (hi : Inv s) (h : CvInv s w)
    (hc : s.cur = some t) (hcode : s.code t = .wakeone (.cv c) :: r) :
    (s.exec t r (.wakeone (.cv c))).ready = s.ready ++ (w c).take 1 ∧
      (s.exec t r (.wakeone (.cv c))).sleepers =
        s.sleepers.filter fun u => u ∉ (w c).take 1 := by
  have hn : s.sleepers.Nodup :=
    (List.nodup_append.mp (List.nodup_append.mp hi.nodup).2.1).2.1
  rw [h.onCv_eq hc (by simp [hcode, entering]), List.take_one, State.onCv, List.head?_filter]
  simp only [State.exec, State.wakeone]
  cases s.sleepers.find? fun t => s.sleepaddr t = some (.cv c) with
  | none => simp
  | some u =>
    refine ⟨rfl, ?_⟩
    change s.sleepers.erase u = _
    rw [hn.erase_eq_filter]
    refine List.filter_congr fun v _ => ?_
    by_cases hv : v = u <;> simp [hv]

/-- `cv_broadcast` moves the whole queue to the run queue. -/
theorem broadcast_moves {w : C → List T} {c : C} {r : List (Stmt S L C)} (h : CvInv s w)
    (hc : s.cur = some t) (hcode : s.code t = .wakeup (.cv c) :: r) :
    (s.exec t r (.wakeup (.cv c))).ready = s.ready ++ w c ∧
      (s.exec t r (.wakeup (.cv c))).sleepers = s.sleepers.filter fun u => u ∉ w c := by
  rw [h.onCv_eq hc (by simp [hcode, entering])]
  refine ⟨rfl, List.filter_congr fun v hv => ?_⟩
  by_cases ha : s.sleepaddr v = some (.cv c) <;> simp [State.onCv, ha, hv]

/-! ## A thread in `cv_signal` or `cv_broadcast` -/

/-- The code of `cv_signal` and `cv_broadcast`, which differ in the statement `st`. -/
def notify (l : L) (st : Stmt S L C) : List (Stmt S L C) :=
  [.splhigh, .splhigh, .hold l, .splx, .panicIf false .cvNotHolder, st, .splx]

/-- The event makes nobody runnable and puts nobody to sleep. -/
def Quiet (e : State T S L C × Act S L C) : Prop :=
  ∀ s', e.1.step e.2 = some s' → s'.ready = e.1.ready ∧ s'.sleepers = e.1.sleepers

/-- Thread `t` has the wake-up `st` before it; past the first statement it runs with
interrupts off. -/
def Signalling (s : State T S L C) (t : T) (l : L) (st : Stmt S L C) : Prop :=
  s.code t = .splx :: notify l st ∨ s.code t = notify l st ∨
    s.cur = some t ∧ s.high = true ∧ ∃ n, 1 ≤ n ∧ n ≤ 5 ∧ s.code t = (notify l st).drop n

/-- The wake-up is done. -/
def Signalled (s : State T S L C) (t : T) : Prop :=
  s.code t = [.splx] ∧ s.cur = some t ∧ s.high = true ∨ s.code t = []

theorem quiet_exec {st : Stmt S L C} {r : List (Stmt S L C)} (hc : s.cur = some t)
    (hcode : s.code t = st :: r) (hst : (∃ b m, st = .panicIf b m) ∨ (∃ l, st = .hold l) ∨
      st = .splhigh ∨ st = .splx) : Quiet (s, .exec) := by
  intro s' hs
  rw [State.step_exec_eq hs hc hcode]
  rcases hst with ⟨b, m, rfl⟩ | ⟨l, rfl⟩ | rfl | rfl
  · simp only [State.exec]
    split <;> exact ⟨rfl, rfl⟩
  · exact ⟨rfl, rfl⟩
  · exact ⟨rfl, rfl⟩
  · exact ⟨rfl, rfl⟩

theorem Signalling.ne_nil {l : L} {st : Stmt S L C} (h : Signalling s t l st) : s.code t ≠ [] := by
  rcases h with h | h | ⟨-, -, n, h₁, h₂, h⟩ <;> rw [h]
  · simp
  · simp [notify]
  · interval_cases n <;> simp [notify]

/-- Up to the wake-up, the steps of the thread move nobody. -/
theorem Signalling.step {l : L} {c : C} {st : Stmt S L C}
    (hst : st = .wakeone (.cv c) ∨ st = .wakeup (.cv c)) (hi : Inv s) (h : Signalling s t l st)
    {a : Act S L C}
    (hs : s.step a = some s') :
    (Signalling s' t l st ∧ (s.cur = some t → a = .exec → Quiet (s, a))) ∨
      (a = .exec ∧ s.cur = some t ∧ s.high = true ∧ s.code t = [st, .splx]) := by
  rcases h with hcode | hcode | ⟨hc, hh, n, h₁, h₂, hcode⟩
  · left
    by_cases hcur : s.cur = some t
    · have hl := hi.run t hcur
      rw [hcode] at hl
      obtain rfl := State.step_exec hs hcur hl.1 (by simp [hcode])
      refine ⟨?_, fun _ _ => quiet_exec hcur hcode (by simp)⟩
      rw [State.step_exec_eq hs hcur hcode]
      exact .inr (.inl (upd_same _ _ _))
    · exact ⟨.inl ((code_other hs hcur).trans hcode), fun hc => absurd hc hcur⟩
  · left
    by_cases hcur : s.cur = some t
    · cases (State.step_cases hs).2 with
      | exec hc hst =>
        rw [hcur] at hc
        cases hc
        obtain ⟨rfl, rfl⟩ := List.cons.inj (hcode.symm.trans hst)
        exact ⟨.inr (.inr ⟨hcur, rfl, 1, by omega, by omega, upd_same _ _ _⟩),
          fun _ _ => quiet_exec hcur hst (by simp)⟩
      | call c' hc hst | exit hc hst =>
        rw [hcur] at hc
        cases hc
        rw [hst] at hcode
        simp [notify] at hcode
      | preempt hc hh =>
        rw [hcur] at hc
        cases hc
        refine ⟨.inl ?_, fun _ ha => by cases ha⟩
        rw [← hcode]
        exact upd_same _ _ _
      | interrupt x hint =>
        exact ⟨.inr (.inl (by rw [code_interruptV, hcode])), fun _ ha => by cases ha⟩
      | dispatch hc hr =>
        rw [hcur] at hc
        cases hc
    · exact ⟨.inr (.inl ((code_other hs hcur).trans hcode)), fun hc => absurd hc hcur⟩
  · have hne : s.code t ≠ [] := by
      rw [hcode]
      interval_cases n <;> simp [notify]
    obtain rfl := State.step_exec hs hc hh hne
    by_cases hlast : n = 5
    · subst hlast
      exact .inr ⟨rfl, hc, hh, hcode⟩
    left
    have hn : n = 1 ∨ n = 2 ∨ n = 3 ∨ n = 4 := by omega
    rcases hn with rfl | rfl | rfl | rfl
    · rw [State.step_exec_eq hs hc hcode]
      exact ⟨.inr (.inr ⟨hc, rfl, 2, by omega, by omega, upd_same _ _ _⟩),
        fun _ _ => quiet_exec hc hcode (by simp)⟩
    · rw [State.step_exec_eq hs hc hcode]
      exact ⟨.inr (.inr ⟨hc, hh, 3, by omega, by omega, upd_same _ _ _⟩),
        fun _ _ => quiet_exec hc hcode (by simp)⟩
    · -- the inner `splx` brings back the level of the outer call
      have hl := hi.run t hc
      rw [hcode] at hl
      obtain ⟨-, b, sv, hsv, hb⟩ := hl
      have hb : b = true := by
        rcases hst with rfl | rfl <;> exact hb.1
      rw [State.step_exec_eq hs hc hcode]
      refine ⟨.inr (.inr ⟨hc, ?_, 4, by omega, by omega, upd_same _ _ _⟩),
        fun _ _ => quiet_exec hc hcode (by simp)⟩
      simp only [State.exec, hsv, List.headD_cons, hb]
    · refine ⟨?_, fun _ _ => quiet_exec hc hcode (by simp)⟩
      rw [State.step_exec_eq hs hc hcode]
      simp only [State.exec]
      split
      · exact .inr (.inr ⟨hc, hh, 4, by omega, by omega, hcode⟩)
      · exact .inr (.inr ⟨hc, hh, 5, by omega, by omega, upd_same _ _ _⟩)

theorem Signalled.step (h : Signalled s t) (hne : s.code t ≠ []) {a : Act S L C}
    (hs : s.step a = some s') : Signalled s' t ∧ Quiet (s, a) := by
  rcases h with ⟨hcode, hc, hh⟩ | hcode
  · obtain rfl := State.step_exec hs hc hh hne
    rw [State.step_exec_eq hs hc hcode]
    exact ⟨.inr (upd_same _ _ _), quiet_exec hc hcode (by simp)⟩
  · exact absurd hcode hne

/-- From `s` to `s'` the threads `w` have been moved from the sleepers to the run queue. -/
def Moved (w : List T) (s s' : State T S L C) : Prop :=
  s'.ready = s.ready ++ w ∧ s'.sleepers = s.sleepers.filter fun u => u ∉ w

/-- One step of the call `mid` of thread `t`, which came after `pre`, moves the threads
`w` makes of the queue of `c`; its other steps move nobody. -/
def MovesOnce (t : T) (c : C) (w : List T → List T) (pre mid : List (State T S L C × Act S L C)) :
    Prop :=
  ∃ m₁ s₁ s₂ m₂, mid = m₁ ++ (s₁, .exec) :: m₂ ∧ s₁.cur = some t ∧ s₁.step .exec = some s₂ ∧
    Moved (w (waiting c (pre ++ m₁))) s₁ s₂ ∧
    ∀ e ∈ m₁ ++ m₂, e.1.cur = some t → e.2 = .exec → Quiet e

/-- The step after the last one that moves anybody still moves nobody. -/
theorem MovesOnce.snoc {c : C} {w : List T → List T} {pre mid : List (State T S L C × Act S L C)}
    {e : State T S L C × Act S L C} (h : MovesOnce t c w pre mid) (he : Quiet e) :
    MovesOnce t c w pre (mid ++ [e]) := by
  obtain ⟨m₁, s₁, s₂, m₂, rfl, hc, hs, hm, hq⟩ := h
  refine ⟨m₁, s₁, s₂, m₂ ++ [e], by simp, hc, hs, hm, fun e' he' => ?_⟩
  rw [← List.append_assoc] at he'
  rcases List.mem_append.mp he' with he' | he'
  · exact hq e' he'
  · obtain rfl := List.mem_singleton.mp he'
    exact fun _ _ => he

/-- What the wake-up `st` does to the queue, the call does. -/
theorem notify_moves {call : Call S L C} {l : L} {c : C} {st : Stmt S L C}
    {w : List T → List T} {pre mid : List (State T S L C × Act S L C)} {s₀ s₁ : State T S L C}
    (hst : st = .wakeone (.cv c) ∨ st = .wakeup (.cv c)) (hcall : call.code = notify l st)
    (hmoves : ∀ (s : State T S L C) q, Inv s → CvInv s q → s.cur = some t →
      s.code t = [st, .splx] → Moved (w (q c)) s (s.exec t [.splx] st))
    (hi₀ : Inv s₀) (h₀ : CvInv s₀ fun _ => [])
    (hr : Run s₀ (pre ++ (s₁, .call call) :: mid) s) (h : Returns t s₁ mid s) :
    MovesOnce t c w (pre ++ [(s₁, .call call)]) mid := by
  have hstages : (Signalling s t l st ∧ ∀ e ∈ mid, e.1.cur = some t → e.2 = .exec → Quiet e) ∨
      (Signalled s t ∧ MovesOnce t c w (pre ++ [(s₁, .call call)]) mid) := by
    refine hr.call_induct h.caller h.inside (fun m s =>
      (Signalling s t l st ∧ ∀ e ∈ m, e.1.cur = some t → e.2 = .exec → Quiet e) ∨
        (Signalled s t ∧ MovesOnce t c w (pre ++ [(s₁, .call call)]) m)) ?_ ?_
    · exact fun _ _ => .inl ⟨.inr (.inl ((upd_same _ _ _).trans hcall)), by simp⟩
    · intro m s₂ s₃ a hr hne hQ hs
      have hi₂ := hi₀.run' hr
      rcases hQ with ⟨hsig, hquiet⟩ | ⟨hdone, hmoved⟩
      · rcases hsig.step hst hi₂ hs with ⟨hsig', hq⟩ | ⟨rfl, hc, hh, hcode⟩
        · refine .inl ⟨hsig', fun e he => ?_⟩
          rcases List.mem_append.mp he with he | he
          · exact hquiet e he
          · obtain rfl := List.mem_singleton.mp he
            exact hq
        · -- the wake-up
          have hs₃ := State.step_exec_eq hs hc hcode
          have hq₂ : CvInv s₂ fun c => waiting c (pre ++ [(s₁, .call call)] ++ m) := by
            rw [List.append_assoc]
            exact h₀.run' hi₀ hr
          refine .inr ⟨.inl ?_, m, s₂, s₃, [], rfl, hc, hs, ?_, by simpa using hquiet⟩
          · rw [hs₃]
            rcases hst with rfl | rfl
            · simp only [State.exec, State.code_wakeone, upd_same, State.cur_wakeone,
                State.high_wakeone, hc, hh, and_self]
            · simp only [State.exec, State.code_wakeup, upd_same, State.cur_wakeup,
                State.high_wakeup, hc, hh, and_self]
          · rw [hs₃]
            exact hmoves s₂ _ hi₂ hq₂ hc hcode
      · obtain ⟨hdone', hq⟩ := hdone.step hne hs
        exact .inr ⟨hdone', hmoved.snoc hq⟩
  rcases hstages with ⟨hsig, -⟩ | ⟨-, hmoved⟩
  · exact absurd h.done hsig.ne_nil
  · exact hmoved

/-- What the holder of the lock relies on in `cv_signal` and `cv_broadcast`. -/
def Held (s : State T S L C) (t : T) (l : L) (st : Stmt S L C) : Prop :=
  s.owner l = some t ∧
    (s.code t = (notify l st).drop 3 ∨ s.code t = (notify l st).drop 4 → s.held t = true)

theorem Held.step {l : L} {c : C} {st : Stmt S L C}
    (hst : st = .wakeone (.cv c) ∨ st = .wakeup (.cv c)) (hi : Inv s) (hl : LockInv s)
    (hsig : Signalling s t l st) (h : Held s t l st) {a : Act S L C}
    (hs : s.step a = some s') : Held s' t l st := by
  obtain ⟨ho, hheld⟩ := h
  have howner : s'.owner l = some t := by
    rcases hl.owner_step hs l with ⟨u, -, hfree, -⟩ | ⟨u, ⟨-, hu, r, hr⟩, hu', -⟩ | ⟨-, -, hsame⟩
    · rw [ho] at hfree
      cases hfree
    · rw [ho] at hu'
      cases hu'
      rcases hsig with hcode | hcode | ⟨-, -, n, h₁, h₂, hcode⟩ <;> rw [hr] at hcode
      · cases hcode
      · cases hcode
      · interval_cases n
        · cases hcode
        · cases hcode
        · cases hcode
        · cases hcode
        · rcases hst with rfl | rfl <;> cases hcode
    · exact hsame.trans ho
  refine ⟨howner, fun hcode' => ?_⟩
  have hlen : (s'.code t).length = 4 ∨ (s'.code t).length = 3 := by
    rcases hcode' with hcode' | hcode' <;> rw [hcode'] <;> simp [notify]
  rcases hsig with hcode | hcode | ⟨hc, hh, n, h₁, h₂, hcode⟩
  · -- nothing but the level has been looked at
    exfalso
    by_cases hcur : s.cur = some t
    · have hl := hi.run t hcur
      rw [hcode] at hl
      obtain rfl := State.step_exec hs hcur hl.1 (by simp [hcode])
      rw [State.step_exec_eq hs hcur hcode] at hlen
      simp [State.exec, notify] at hlen
    · rw [code_other hs hcur, hcode] at hlen
      simp [notify] at hlen
  · exfalso
    by_cases hcur : s.cur = some t
    · cases (State.step_cases hs).2 with
      | exec hc hst' =>
        rw [hcur] at hc
        cases hc
        obtain ⟨rfl, rfl⟩ := List.cons.inj (hcode.symm.trans hst')
        simp [State.exec] at hlen
      | call c' hc hst' | exit hc hst' =>
        rw [hcur] at hc
        cases hc
        rw [hst'] at hcode
        cases hcode
      | preempt hc hh =>
        rw [hcur] at hc
        cases hc
        simp [State.preempt, hcode, notify] at hlen
      | interrupt x hint =>
        rw [code_interruptV, hcode] at hlen
        simp [notify] at hlen
      | dispatch hc hr =>
        rw [hcur] at hc
        cases hc
    · rw [code_other hs hcur, hcode] at hlen
      simp [notify] at hlen
  · obtain rfl := State.step_exec hs hc hh (by rw [hcode]; interval_cases n <;> simp [notify])
    interval_cases n
    · rw [State.step_exec_eq hs hc hcode] at hlen
      simp [State.exec] at hlen
    · -- the answer of `lock_do_i_hold`
      rw [State.step_exec_eq hs hc hcode]
      simp only [State.exec, upd_same, ho, decide_true]
    · rw [State.step_exec_eq hs hc hcode]
      exact hheld (.inl hcode)
    · have hht := hheld (.inr hcode)
      rw [State.step_exec_eq hs hc hcode]
      simp only [State.exec]
      split <;> exact hht
    · rw [State.step_exec_eq hs hc hcode] at hlen
      rcases hst with rfl | rfl
      · simp [State.exec] at hlen
      · simp [State.exec] at hlen

/-- The holder of the lock goes on in `cv_signal` and `cv_broadcast`, and never panics. -/
theorem notify_goes {call : Call S L C} {l : L} {c : C} {st : Stmt S L C}
    {pre mid : List (State T S L C × Act S L C)} {s₀ s₁ : State T S L C}
    (hst : st = .wakeone (.cv c) ∨ st = .wakeup (.cv c)) (hcall : call.code = notify l st)
    (hi₀ : Inv s₀) (hl₀ : LockInv s₀) (hr : Run s₀ (pre ++ (s₁, .call call) :: mid) s)
    (hc : s₁.cur = some t) (ho : s₁.owner l = some t) (hin : ∀ e ∈ mid, e.1.code t ≠ [])
    (hne : s.code t ≠ []) (hcur : s.cur = some t) (hp : s.panic = none) :
    ∃ s', s.step .exec = some s' ∧ s'.panic = none := by
  have hstages : (Signalling s t l st ∧ Held s t l st) ∨ Signalled s t := by
    refine hr.call_induct hc hin (fun _ s => (Signalling s t l st ∧ Held s t l st) ∨ Signalled s t)
      ?_ ?_
    · intro _ _
      have hcode : upd s₁.code t call.code t = notify l st := (upd_same _ _ _).trans hcall
      refine .inl ⟨.inr (.inl hcode), ho, fun h => ?_⟩
      rcases h with h | h <;>
        · have hlen := hcode.symm.trans h
          simp [notify] at hlen
    · intro m s₂ s₃ a hr hne hQ hs
      have hi₂ := hi₀.run' hr
      rcases hQ with ⟨hsig, hheld⟩ | hdone
      · rcases hsig.step hst hi₂ hs with ⟨hsig', -⟩ | ⟨rfl, hc, hh, hcode⟩
        · exact .inl ⟨hsig', hheld.step hst hi₂ (hl₀.run' hi₀ hr) hsig hs⟩
        · refine .inr (.inl ?_)
          rw [State.step_exec_eq hs hc hcode]
          rcases hst with rfl | rfl
          · simp only [State.exec, State.code_wakeone, upd_same, State.cur_wakeone,
              State.high_wakeone, hc, hh, and_self]
          · simp only [State.exec, State.code_wakeup, upd_same, State.cur_wakeup,
              State.high_wakeup, hc, hh, and_self]
      · exact .inr (hdone.step hne hs).1
  obtain ⟨st', r, hcode⟩ := List.exists_cons_of_ne_nil hne
  have hstep : s.step .exec = some (s.exec t r st') := by
    simp only [State.step, hp, Option.isSome_none, Bool.false_eq_true, if_false, hcur, hcode]
  refine ⟨_, hstep, ?_⟩
  rcases hstages with ⟨hn | hn | ⟨-, -, n, h₁, h₂, hn⟩, -, hheld⟩ | ⟨hn, -⟩ | hn
  · obtain ⟨rfl, rfl⟩ := List.cons.inj (hn.symm.trans hcode)
    exact hp
  · obtain ⟨rfl, rfl⟩ := List.cons.inj (hn.symm.trans hcode)
    exact hp
  · have hcase := hn.symm.trans hcode
    interval_cases n <;> obtain ⟨rfl, rfl⟩ := List.cons.inj hcase
    · exact hp
    · exact hp
    · exact hp
    · simp only [State.exec, hheld (.inr hn), Bool.true_eq_false, if_false, hp]
    · rcases hst with rfl | rfl
      · simpa only [State.exec, State.panic_wakeone] using hp
      · exact hp
  · obtain ⟨rfl, rfl⟩ := List.cons.inj (hn.symm.trans hcode)
    exact hp
  · exact absurd hn hne

/-- Nobody else can run between the release in `cv_wait` and the sleep, so that the
sleepers are the queue wherever another thread can run; a call of `cv_signal` moves its head
to the run queue, one of `cv_broadcast` all of it, neither panics on the holder of the
lock, and `cv_wait` returns after that, with the lock. -/
theorem condvar_correct (threads : List T) (hn : threads.Nodup) (count : S → Int)
    {tr : List (State T S L C × Act S L C)} (hr : Run (State.initial threads count) tr s) :
    (∀ t c, entering (s.code t) = some c →
      s.cur = some t ∧ s.high = true ∧ ∀ a s', s.step a = some s' → a = .exec) ∧
    (∀ c, waiting c tr = s.onCv c ++ s.entrant c ∧ (s.Open → waiting c tr = s.onCv c)) ∧
    (∀ pre s₁ mid t c l, s₁.cur = some t →
      (tr = pre ++ (s₁, .call (.signal c l)) :: mid → Returns t s₁ mid s →
        MovesOnce t c (List.take 1) (pre ++ [(s₁, .call (.signal c l))]) mid) ∧
      (tr = pre ++ (s₁, .call (.broadcast c l)) :: mid → Returns t s₁ mid s →
        MovesOnce t c id (pre ++ [(s₁, .call (.broadcast c l))]) mid) ∧
      (∀ call, call = .signal c l ∨ call = .broadcast c l → tr = pre ++ (s₁, .call call) :: mid →
        s₁.owner l = some t → (∀ e ∈ mid, e.1.code t ≠ []) → s.code t ≠ [] → s.cur = some t →
        s.panic = none → ∃ s', s.step .exec = some s' ∧ s'.panic = none)) ∧
    ∀ pre s₁ mid t c l, tr = pre ++ (s₁, .call (.wait c l)) :: mid → Returns t s₁ mid s →
      s.owner l = some t ∧ ∃ m₁ e m₂, mid = m₁ ++ e :: m₂ ∧ Wakes c e ∧
        t ∈ waiting c (pre ++ (s₁, .call (.wait c l)) :: m₁) ∧
        t ∉ waiting c (pre ++ (s₁, .call (.wait c l)) :: m₁ ++ [e]) := by
  have hi₀ := Inv.initial (S := S) (L := L) (C := C) hn count
  have hl₀ := LockInv.initial (S := S) (L := L) (C := C) threads count
  have h₀ := CvInv.initial (S := S) (L := L) (C := C) threads count
  have hi := hi₀.run' hr
  have h : CvInv s fun c => waiting c tr := h₀.run' hi₀ hr
  have hatomic (t : T) (c : C) (he : entering (s.code t) = some c) :
      s.cur = some t ∧ s.high = true := by
    have hc := h.entered t (by simp [he])
    refine ⟨hc, ?_⟩
    by_contra hh
    rw [Bool.not_eq_true] at hh
    have hl := hi.run t hc
    rw [hh] at hl
    rw [hl.entering] at he
    cases he
  refine ⟨?_, ?_, ?_, ?_⟩
  · intro t c he
    obtain ⟨hc, hh⟩ := hatomic t c he
    refine ⟨hc, hh, fun a s' hs => State.step_exec hs hc hh ?_⟩
    intro hnil
    rw [hnil] at he
    cases he
  · refine fun c => ⟨h.queue c, fun ho => ?_⟩
    refine (h.queue c).trans ?_
    rw [State.entrant_nil, List.append_nil]
    intro t hc
    by_contra hne
    obtain ⟨c', hc'⟩ := Option.ne_none_iff_exists'.mp hne
    obtain ⟨hcur, hh⟩ := hatomic t c' hc'
    rcases ho with ho | ho
    · rw [hcur] at ho
      cases ho
    · rw [hh] at ho
      cases ho
  · intro pre s₁ mid t c l hc
    refine ⟨?_, ?_, ?_⟩
    · intro hx hret
      obtain rfl := hx
      refine notify_moves (.inl rfl) rfl (fun s q hi hq hc hcode => ?_) hi₀ h₀ hr hret
      exact signal_moves hi hq hc hcode
    · intro hx hret
      obtain rfl := hx
      refine notify_moves (.inr rfl) rfl (fun s q hi hq hc hcode => ?_) hi₀ h₀ hr hret
      exact broadcast_moves hq hc hcode
    · intro call hcall hx ho hin hne hcur hp
      obtain rfl := hx
      rcases hcall with rfl | rfl
      · exact notify_goes (.inl rfl) rfl hi₀ hl₀ hr hc ho hin hne hcur hp
      · exact notify_goes (.inr rfl) rfl hi₀ hl₀ hr hc ho hin hne hcur hp
  · intro pre s₁ mid t c l hx hret
    obtain ⟨hc, hmid, hdone⟩ := hret
    obtain rfl := hx
    obtain ⟨s₁', hr₁, hr₂⟩ := hr.split
    obtain ⟨rfl, s₂, hs, hr₂⟩ := hr₂.head
    have hi₁ := hi₀.run' hr₁
    have h₁ : CvInv s₁ fun c => waiting c pre := h₀.run' hi₀ hr₁
    have hl₂ := (hl₀.run' hi₀ hr₁).step hi₁ hs
    have hu : Unsignalled s₂ t c l := by
      cases (State.step_cases hs).2 with
      | call _ hc' hcode =>
        rw [hc] at hc'
        cases hc'
        exact .inl ⟨0, by omega, upd_same _ _ _⟩
    rcases hu.run (hi₁.step hs) hl₂ (h₁.step hi₁ hs) hr₂ hmid with
      hu | ⟨hre | ⟨ho, -⟩, m₁, e, m₂, hm, hin, hout⟩
    · exact absurd hdone hu.ne_nil
    · exact absurd hdone hre.ne_nil
    · refine ⟨ho, m₁, e, m₂, hm, wakes_of_lost hin hout, ?_, ?_⟩
      · simpa [waiting, List.foldl_append] using hin
      · simpa [waiting, List.foldl_append] using hout

/-- The first thread waits on the condition variable, the second takes the lock and
signals; when it has released the lock, the first returns from `cv_wait`. -/
def beforeWait := acquired
def slept := (calling (.wait () ()) beforeWait.2 false).acts (List.replicate 8 .exec)
def beforeSignal := slept.2.acts
  ([.dispatch, .exec, .call (.acquire ())] ++ List.replicate 8 .exec)
def signalled := (calling (.signal () ()) beforeSignal.2 true).acts (List.replicate 7 .exec)
def woken := signalled.2.acts (.call (.release ()) :: List.replicate 6 .exec ++
    [.exit, .dispatch] ++
  List.replicate 10 .exec)

theorem condvar_correct_queued :
    waiting () (beforeAcquire.1 ++ (beforeAcquire.2, .call (.acquire ())) :: acquired.1 ++
      (beforeWait.2, .call (.wait () ())) :: slept.1) = [false] ∧
    MovesOnce true () (List.take 1) (beforeAcquire.1 ++ (beforeAcquire.2, .call (.acquire ())) ::
      acquired.1 ++ (beforeWait.2, .call (.wait () ())) :: slept.1 ++ beforeSignal.1 ++
      [(beforeSignal.2, .call (.signal () ()))]) signalled.1 ∧
    woken.2.owner () = some false := by
  have hacq : Run twoThreads (beforeAcquire.1 ++
    (beforeAcquire.2, .call (.acquire ())) :: acquired.1)
      acquired.2 := (State.run_acts _ _).append (.cons rfl (State.run_acts _ _))
  have hwait : Run acquired.2 ((beforeWait.2, .call (.wait () ())) :: slept.1) slept.2 :=
    .cons rfl (State.run_acts _ _)
  have hbefore : Run slept.2 beforeSignal.1 beforeSignal.2 := State.run_acts _ _
  have hsignal : Run beforeSignal.2 ((beforeSignal.2, .call (.signal () ())) :: signalled.1)
      signalled.2 := .cons rfl (State.run_acts _ _)
  have hwoken : Run signalled.2 woken.1 woken.2 := State.run_acts _ _
  have hslept := hacq.append hwait
  have hr := (hslept.append hbefore).append hsignal
  obtain ⟨-, hqueue, -, -⟩ := condvar_correct [false, true] (by decide) _ hslept
  obtain ⟨-, -, hmoves, -⟩ := condvar_correct [false, true] (by decide) _ hr
  obtain ⟨-, -, -, hreturns⟩ := condvar_correct [false, true] (by decide) _ (hr.append hwoken)
  refine ⟨((hqueue ()).2 (.inl (by decide +kernel))).trans (by decide +kernel), ?_, ?_⟩
  · exact (hmoves _ beforeSignal.2 signalled.1 true () () (by decide +kernel)).1 rfl
      ⟨by decide +kernel, by decide +kernel, by decide +kernel⟩
  · refine (hreturns (beforeAcquire.1 ++ (beforeAcquire.2, .call (.acquire ())) :: acquired.1)
      beforeWait.2 (slept.1 ++ beforeSignal.1 ++
        (beforeSignal.2, .call (.signal () ())) :: signalled.1 ++ woken.1) false () () ?_
      ⟨by decide +kernel, by decide +kernel, by decide +kernel⟩).1
    simp only [List.append_assoc, List.cons_append]

end Os161.Threads
